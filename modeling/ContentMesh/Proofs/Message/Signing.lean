import ContentMesh.Message.Signature

/-!
# ContentMesh.Proofs.Message.Signing — what one end signs the other end takes

Digits give back the bytes they were made of, so a signature holds at the other end of the link under the same key.
-/

namespace ContentMesh

namespace Hex

theorem value?_digit : ∀ n < 16, value? (digit n) = some n := by decide

theorem decodeChars_encode (b : Bytes) :
    decodeChars (b.flatMap fun x => [digit (x.toNat / 16), digit (x.toNat % 16)]) = some b := by
  induction b with
  | nil => rfl
  | cons x b ih =>
    have hlt : x.toNat < 256 := x.toNat_lt
    have hhigh : value? (digit (x.toNat / 16)) = some (x.toNat / 16) := value?_digit _ (by omega)
    have hlow : value? (digit (x.toNat % 16)) = some (x.toNat % 16) := value?_digit _ (by omega)
    have hx : (16 * (x.toNat / 16) + x.toNat % 16).toUInt8 = x := by
      rw [Nat.div_add_mod]
      exact UInt8.ofNat_toNat
    simp only [List.flatMap_cons, List.cons_append, List.nil_append, decodeChars, hhigh, hlow, ih]
    simp only [Option.bind_eq_bind, Option.bind_some, hx]
    rfl

/-- Digits give back the bytes. -/
theorem decode_encode (b : Bytes) : decode (encode b) = some b := by
  rw [decode, encode, String.toList_ofList]
  exact decodeChars_encode b

end Hex

namespace Signer

/-- What can be signed under a key holds under it, whoever the hop is. -/
theorem verify_sign (s : Signer) (key : String) (p : Parcel) (hop : Option String) :
    ∃ t, s.sign (some key) p = .ok t ∧ s.verify (some key) { p with hop } t = .ok () := by
  cases s with
  | unsigned => exact ⟨none, rfl, rfl⟩
  | keyed =>
    refine ⟨some (p.signature key), rfl, ?_⟩
    have hsame : Parcel.tag { p with hop } key = p.tag key := rfl
    simp only [verify, Parcel.signature, Hex.decode_encode, hsame, if_true]

end Signer

end ContentMesh
