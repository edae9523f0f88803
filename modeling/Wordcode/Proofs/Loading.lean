import Wordcode.Container

/-! # Ways of loading

A container is loaded in stages: its frame is opened, its payload is read as a module, and the module is
verified. `loadVerified` hands back the payload after the last stage and `loadModule` the module, and a fault
of any stage ends both. So there is one verdict on a byte string, whichever way it is loaded
(`loading_paths_agree`). -/

namespace Wordcode

/-! ### Stages -/

section Stages

variable {α β ε ε' : Type} {x : Except ε α} {f : α → Except ε β} {g : ε → ε'}

theorem bind_eq_ok {b : β} : (x >>= f) = .ok b ↔ ∃ a, x = .ok a ∧ f a = .ok b := by
  cases x with
  | error e => simp [bind, Except.bind]
  | ok a => simp [bind, Except.bind]

theorem bind_eq_error {e : ε} :
    (x >>= f) = .error e ↔ x = .error e ∨ ∃ a, x = .ok a ∧ f a = .error e := by
  cases x with
  | error e => simp [bind, Except.bind]
  | ok a => simp [bind, Except.bind]

theorem mapError_eq_ok {a : α} : x.mapError g = .ok a ↔ x = .ok a := by
  cases x with
  | error e => exact iff_of_false nofun nofun
  | ok b =>
    constructor
    all_goals
      rintro ⟨⟩
      rfl

theorem mapError_eq_error {e' : ε'} : x.mapError g = .error e' ↔ ∃ e, x = .error e ∧ g e = e' := by
  cases x with
  | error e =>
    refine ⟨fun h => ⟨e, rfl, Except.error.inj h⟩, ?_⟩
    rintro ⟨_, ⟨⟩, rfl⟩
    rfl
  | ok a => exact iff_of_false nofun fun ⟨_, h, _⟩ => nomatch h

end Stages

section Payloads

variable {payload : Bytes} {natives : Option NativeRegistry}

theorem verifyPayload_ok_iff : verifyPayload natives payload = .ok () ↔
    ∃ m, Module.ofPayload payload = .ok m ∧ m.verify natives = .ok () := bind_eq_ok

theorem verifyPayload_error_iff {cause : Fault} : verifyPayload natives payload = .error cause ↔
    Module.ofPayload payload = .error cause ∨
      ∃ m, Module.ofPayload payload = .ok m ∧ m.verify natives = .error cause := bind_eq_error

end Payloads

namespace Container

variable {ε : Type} {codec : Codec ε} {bytes payload : Bytes} {m : Module}
  {verify : Bytes → Except Fault Unit} {fault : ContainerFault ε}

/-! ### Payloads -/

theorem loadVerified_ok_iff : loadVerified codec verify bytes = .ok payload ↔
    load codec bytes = .ok payload ∧ verify payload = .ok () := by
  rw [loadVerified, bind_eq_ok]
  constructor
  · rintro ⟨loaded, hload, h⟩
    obtain ⟨⟨⟩, hverify, hloaded⟩ := bind_eq_ok.mp h
    obtain rfl := Except.ok.inj hloaded
    exact ⟨hload, mapError_eq_ok.mp hverify⟩
  · rintro ⟨hload, hverify⟩
    exact ⟨payload, hload, bind_eq_ok.mpr ⟨(), mapError_eq_ok.mpr hverify, rfl⟩⟩

theorem loadVerified_error_iff : loadVerified codec verify bytes = .error fault ↔
    load codec bytes = .error fault ∨ ∃ payload, load codec bytes = .ok payload ∧
      ∃ cause, verify payload = .error cause ∧ .rejected cause = fault := by
  rw [loadVerified, bind_eq_error]
  refine or_congr_right (exists_congr fun payload => and_congr_right fun _ => ?_)
  rw [bind_eq_error, mapError_eq_error]
  refine or_iff_left ?_
  rintro ⟨_, _, ⟨⟩⟩

/-! ### Modules -/

theorem loadModule_ok_iff : loadModule codec bytes = .ok m ↔ ∃ payload,
    load codec bytes = .ok payload ∧ Module.ofPayload payload = .ok m ∧ m.verify none = .ok () := by
  rw [loadModule, bind_eq_ok]
  refine exists_congr fun payload => and_congr_right fun _ => ?_
  rw [bind_eq_ok]
  constructor
  · rintro ⟨read, hread, h⟩
    obtain ⟨⟨⟩, hverify, hsame⟩ := bind_eq_ok.mp h
    obtain rfl := Except.ok.inj hsame
    exact ⟨mapError_eq_ok.mp hread, mapError_eq_ok.mp hverify⟩
  · rintro ⟨hread, hverify⟩
    exact ⟨m, mapError_eq_ok.mpr hread, bind_eq_ok.mpr ⟨(), mapError_eq_ok.mpr hverify, rfl⟩⟩

theorem loadModule_error_iff : loadModule codec bytes = .error fault ↔
    load codec bytes = .error fault ∨ ∃ payload, load codec bytes = .ok payload ∧
      ∃ cause, verifyPayload none payload = .error cause ∧ .rejected cause = fault := by
  rw [loadModule, bind_eq_error]
  refine or_congr_right (exists_congr fun payload => and_congr_right fun _ => ?_)
  rw [bind_eq_error, mapError_eq_error]
  constructor
  · rintro (⟨cause, hread, rfl⟩ | ⟨m, hread, h⟩)
    · exact ⟨cause, verifyPayload_error_iff.mpr (.inl hread), rfl⟩
    · obtain hfault | ⟨_, _, ⟨⟩⟩ := bind_eq_error.mp h
      obtain ⟨cause, hverify, rfl⟩ := mapError_eq_error.mp hfault
      exact ⟨cause, verifyPayload_error_iff.mpr (.inr ⟨m, mapError_eq_ok.mp hread, hverify⟩), rfl⟩
  · rintro ⟨cause, hcause, rfl⟩
    rcases verifyPayload_error_iff.mp hcause with hread | ⟨m, hread, hverify⟩
    · exact .inl ⟨cause, hread, rfl⟩
    · refine .inr ⟨m, mapError_eq_ok.mpr hread, bind_eq_error.mpr (.inl ?_)⟩
      exact mapError_eq_error.mpr ⟨cause, hverify, rfl⟩

/-- **There is one verdict on a byte string**, for every codec. A module is loaded exactly if its payload is
loaded and verified, and the two ways fail with the same fault. Whatever the verifier, a payload is handed
back only if it is the one in the container and the verifier accepts it. -/
theorem loading_paths_agree (codec : Codec ε) (bytes : Bytes) :
    (∀ m, loadModule codec bytes = .ok m ↔ ∃ payload,
      loadVerified codec (verifyPayload none) bytes = .ok payload ∧ Module.ofPayload payload = .ok m) ∧
    (∀ fault, loadModule codec bytes = .error fault ↔
      loadVerified codec (verifyPayload none) bytes = .error fault) ∧
    ∀ verify payload, loadVerified codec verify bytes = .ok payload ↔
      load codec bytes = .ok payload ∧ verify payload = .ok () := by
  refine ⟨fun m => ?_, fun fault => loadModule_error_iff.trans loadVerified_error_iff.symm,
    fun verify payload => loadVerified_ok_iff⟩
  rw [loadModule_ok_iff]
  refine exists_congr fun payload => ?_
  rw [loadVerified_ok_iff, verifyPayload_ok_iff, and_assoc]
  refine and_congr_right fun _ => ⟨fun ⟨hread, hverify⟩ => ⟨⟨m, hread, hverify⟩, hread⟩, ?_⟩
  rintro ⟨⟨m', hread', hverify⟩, hread⟩
  obtain rfl := Except.ok.inj (hread'.symm.trans hread)
  exact ⟨hread, hverify⟩

end Container

end Wordcode
