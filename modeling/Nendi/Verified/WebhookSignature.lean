import Nendi.Http.Webhook

/-! # Webhook signatures can be extended

`compute_hmac` is documented as an HMAC.  It prints the whole state of a hash that is fed the
secret and then the payload, one byte after another.  Whoever sees the signature of a payload
has that state, and goes on from it without the secret.
-/

namespace Nendi.Verified

open Nendi.Lib Nendi.Http

/-- The hash state that a signature shows. -/
def signatureState (signature : String) : Option UInt64 :=
  (hexNumber (signature.toList.drop 7)).map UInt64.ofNat

/-- Signs an extended payload with nothing but the signature of the payload and the extension. -/
def extendSignature (signature suffix : String) : String :=
  match signatureState signature with
  | some state => "sha256=" ++ String.ofList (hex (fnvFrom state (utf8Bytes suffix)).toNat)
  | none => ""

theorem signatureState_computeHmac (secret payload : String) :
    signatureState (computeHmac secret payload) =
      some (fnvFrom fnvOffset (utf8Bytes secret ++ utf8Bytes payload)) := by
  have digits : (computeHmac secret payload).toList.drop 7 =
      hex (fnvFrom fnvOffset (utf8Bytes secret ++ utf8Bytes payload)).toNat := by
    simp [computeHmac]
  rw [signatureState, digits, hexNumber_hex, Option.map_some, UInt64.ofNat_toNat]

theorem extendSignature_computeHmac (secret payload suffix : String) :
    extendSignature (computeHmac secret payload) suffix = computeHmac secret (payload ++ suffix) := by
  simp only [extendSignature, signatureState_computeHmac]
  simp only [computeHmac, utf8Bytes_append, fnvFrom_append]

/-- The signature of a payload determines those of all its extensions, whatever the secret:
    they are computed from it, and are the same for all who share it. -/
theorem signature_determines_extensions (secret payload suffix : String) :
    extendSignature (computeHmac secret payload) suffix = computeHmac secret (payload ++ suffix) ∧
      ∀ otherSecret otherPayload, computeHmac otherSecret otherPayload = computeHmac secret payload →
        computeHmac otherSecret (otherPayload ++ suffix) = computeHmac secret (payload ++ suffix) := by
  constructor
  · exact extendSignature_computeHmac secret payload suffix
  · intro otherSecret otherPayload same
    rw [← extendSignature_computeHmac, same, extendSignature_computeHmac]

-- nothing separates the secret from the payload either
theorem signature_determines_extensions_shifted :
    computeHmac "se" "cret[]" = computeHmac "secret" "[]" ∧
      computeHmac "se" ("cret[]" ++ "x") = computeHmac "secret" ("[]" ++ "x") := by
  have same : computeHmac "se" "cret[]" = computeHmac "secret" "[]" := by decide
  exact ⟨same, (signature_determines_extensions "secret" "[]" "x").2 "se" "cret[]" same⟩

theorem signatures_are_extendable :
    ∃ forge : String → String → String, ∀ secret payload suffix,
      forge (computeHmac secret payload) suffix = computeHmac secret (payload ++ suffix) :=
  ⟨extendSignature, extendSignature_computeHmac⟩

end Nendi.Verified
