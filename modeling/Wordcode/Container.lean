import Wordcode.Codec
import Wordcode.Module.Verify

/-! # Containers

A container is a marker of four bytes, the length of the payload in four bytes, the lowest first, and
the compressed payload. It can be used with any codec, whose own errors it passes on. A payload that
is loaded for use has always been verified. -/

namespace Wordcode

/-- Why a payload cannot be saved or loaded. -/
inductive ContainerFault (ε : Type)
  | badMagic
  | truncated (size : Nat)
  | decompress (cause : ε)
  | compress (cause : ε)
  | tooLarge (size : Nat)
  | rejected (cause : Fault)
  deriving DecidableEq, Repr

/-- The wording of a fault. -/
def ContainerFault.message {ε : Type} [ToString ε] : ContainerFault ε → String
  | badMagic => "bytecode container corrupt: bad magic"
  | truncated size => s!"bytecode container corrupt: truncated header ({size} bytes)"
  | decompress cause => s!"bytecode container corrupt: {cause}"
  | compress cause => s!"compression failed: {cause}"
  | tooLarge size => s!"payload of {size} bytes is too large for a container"
  | rejected cause => s!"bytecode payload rejected: {cause.message}"

namespace Container

/-- The marker at the start of every container. -/
def magic : Bytes := [0xA5, 0x74, 0xEF, 0x19]

/-- A number of 32 bits in four bytes, the lowest first. -/
def littleEndian32 (n : Nat) : Bytes :=
  [.ofNat n, .ofNat (n / 256), .ofNat (n / 65536), .ofNat (n / 16777216)]

/-- The number in four bytes, the lowest first. -/
def ofLittleEndian32 (a b c d : UInt8) : Nat :=
  a.toNat + b.toNat * 256 + c.toNat * 65536 + d.toNat * 16777216

variable {ε : Type}

/-- Packs a payload. -/
def save (codec : Codec ε) (payload : Bytes) : Except (ContainerFault ε) Bytes := do
  if UInt32.size ≤ payload.length then throw (.tooLarge payload.length)
  let compressed ← (codec.compress payload).mapError .compress
  pure (magic ++ littleEndian32 payload.length ++ compressed)

/-- Unpacks a payload without looking into it. -/
def load (codec : Codec ε) (bytes : Bytes) : Except (ContainerFault ε) Bytes :=
  if bytes.take magic.length ≠ magic then .error .badMagic
  else
    match bytes.drop magic.length with
    | a :: b :: c :: d :: rest =>
      (codec.decompress rest (ofLittleEndian32 a b c d)).mapError .decompress
    | _ => .error (.truncated bytes.length)

/-- Unpacks a payload that `verify` accepts. -/
def loadVerified (codec : Codec ε) (verify : Bytes → Except Fault Unit) (bytes : Bytes) :
    Except (ContainerFault ε) Bytes := do
  let payload ← load codec bytes
  (verify payload).mapError .rejected
  pure payload

/-- Packs a module. -/
def saveModule (codec : Codec ε) (m : Module) : Except (ContainerFault ε) Bytes :=
  save codec m.toPayload

/-- Unpacks a module and verifies it. -/
def loadModule (codec : Codec ε) (bytes : Bytes) : Except (ContainerFault ε) Module := do
  let payload ← load codec bytes
  let m ← (Module.ofPayload payload).mapError .rejected
  (m.verify none).mapError .rejected
  pure m

end Container

end Wordcode
