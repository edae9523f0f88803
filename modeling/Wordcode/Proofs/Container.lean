import Wordcode.Proofs.Deflate.Library
import Wordcode.Proofs.Framing
import Wordcode.Proofs.Listing
import Wordcode.Proofs.Loading
import Wordcode.Proofs.Payload

/-! # Files of modules

A codec that gives back a payload makes a file of its module from which the module is loaded if the verifier
accepts it, whichever way it is loaded, and which is rejected with the fault of the module otherwise
(`Container.faithful_of_decompress`). Lossless codecs give back every payload, and the codec of zlib streams
gives back those that fit into a container (`module_file_verified`). -/

namespace Wordcode

variable {ε : Type} {codec : Codec ε}

/-- Whatever is compressed is decompressed again, if its length is known. -/
def Codec.Lossless (codec : Codec ε) : Prop :=
  ∀ payload, ∃ compressed, codec.compress payload = .ok compressed ∧
    codec.decompress compressed payload.length = .ok payload

namespace Container

/-- A module file: it is saved, and it is loaded in both ways that verify it exactly if the verifier
accepts the module. As it is loaded it gives back the module, and otherwise the fault of the verifier. -/
def Faithful (codec : Codec ε) (m : Module) : Prop :=
  ∃ bytes, saveModule codec m = .ok bytes ∧
    (m.verify none = .ok () → loadModule codec bytes = .ok m ∧
      ∃ payload, loadVerified codec (verifyPayload none) bytes = .ok payload ∧
        Module.ofPayload payload = .ok m) ∧
    ∀ fault, m.verify none = .error fault → loadModule codec bytes = .error (.rejected fault) ∧
      loadVerified codec (verifyPayload none) bytes = .error (.rejected fault)

theorem faithful_of_decompress {m : Module} {compressed : Bytes} (hsize : m.toPayload.length < UInt32.size)
    (hcompress : codec.compress m.toPayload = .ok compressed)
    (hdecompress : codec.decompress compressed m.toPayload.length = .ok m.toPayload) : Faithful codec m := by
  obtain ⟨bytes, hsave, hload⟩ := load_save_of_decompress hsize hcompress hdecompress
  have hpayload := m.ofPayload_toPayload
  refine ⟨bytes, hsave, fun hok => ⟨?_, m.toPayload, ?_, hpayload⟩, fun fault herror => ?_⟩
  · exact loadModule_ok_iff.mpr ⟨_, hload, hpayload, hok⟩
  · exact loadVerified_ok_iff.mpr ⟨hload, verifyPayload_ok_iff.mpr ⟨m, hpayload, hok⟩⟩
  · have hrejected : verifyPayload none m.toPayload = .error fault :=
      verifyPayload_error_iff.mpr (.inr ⟨m, hpayload, herror⟩)
    exact ⟨loadModule_error_iff.mpr (.inr ⟨_, hload, fault, hrejected, rfl⟩),
      loadVerified_error_iff.mpr (.inr ⟨_, hload, fault, hrejected, rfl⟩)⟩

/-- **Module files are verified on every path.** Whatever the codec, if it is lossless, the file of a module
whose payload fits is loaded as this module if the verifier accepts it, and is rejected with the fault of
the verifier otherwise. So it is at every level with the codec of zlib streams, if its library does what is
documented. -/
theorem module_file_verified (m : Module) (hsize : m.toPayload.length < UInt32.size) :
    (∀ (ε : Type) (codec : Codec ε), codec.Lossless → Faithful codec m) ∧
      ∀ (κ δ : Type) (library : ZlibLibrary κ δ) (IsStream : Bytes → Bytes → Prop),
        library.Documented IsStream → ∀ buffering settings,
          Faithful (.deflate library buffering settings) m := by
  refine ⟨fun ε codec hcodec => ?_, fun κ δ library IsStream hlibrary buffering settings => ?_⟩
  · obtain ⟨compressed, hcompress, hdecompress⟩ := hcodec m.toPayload
    exact faithful_of_decompress hsize hcompress hdecompress
  · obtain ⟨data, hdata, hstream⟩ := hlibrary.compress_deflate buffering settings m.toPayload
    exact faithful_of_decompress hsize hdata
      (hlibrary.decompress_length buffering hstream (Nat.lt_trans hsize (by decide)))

/-- A module whose code ends inside of an instruction. -/
def cutModule : Module := { Module.pointModule with code := [22, 1] }

/-- With a codec that copies, the one module is loaded as it was saved; in zlib streams that only store, the other
is rejected where it ends. -/
theorem module_file_verified_cut :
    (Module.pointModule.verify none = .ok () ∧ ∃ bytes,
      saveModule plainCodec Module.pointModule = .ok bytes ∧
        loadModule plainCodec bytes = .ok Module.pointModule) ∧
    (cutModule.verify none = .error (.unexpectedEnd 2) ∧ ∃ bytes,
      saveModule (.deflate Deflate.library .even ⟨0⟩) cutModule = .ok bytes ∧
        loadVerified (.deflate Deflate.library .even ⟨0⟩) (verifyPayload none) bytes =
          .error (.rejected (.unexpectedEnd 2))) := by
  have hpoint : Module.pointModule.toPayload.length < UInt32.size := by decide +kernel
  have hcut : cutModule.toPayload.length < UInt32.size := by decide +kernel
  have hok : Module.pointModule.verify none = .ok () := by decide
  have herror : cutModule.verify none = .error (.unexpectedEnd 2) := by decide
  have hplain : plainCodec.Lossless := fun payload => ⟨payload, rfl, if_pos rfl⟩
  obtain ⟨bytes, hsave, hload, -⟩ := (module_file_verified Module.pointModule hpoint).1 _ plainCodec hplain
  obtain ⟨bytes', hsave', -, hload'⟩ := (module_file_verified cutModule hcut).2 _ _ _ _
    Deflate.library_documented .even ⟨0⟩
  exact ⟨⟨hok, bytes, hsave, (hload hok).1⟩, herror, bytes', hsave', (hload' _ herror).2⟩

end Container

end Wordcode
