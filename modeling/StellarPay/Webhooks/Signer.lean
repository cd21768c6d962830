import StellarPay.Webhooks.Service

/-!
# Checking a signature

`crates/webhooks/src/signer.rs`: `verify_signature` signs the payload again and compares the texts
with `constant_time_eq`, which looks at every byte and collects the differences in one byte. The
digest and its hexadecimal text are functions of the platform, whatever they are.
-/

namespace StellarPay

/-- The bytes of a text (`str::as_bytes`). -/
def asBytes (text : String) : List UInt8 :=
  text.toUTF8.data.toList

/-- The loop of `constant_time_eq`: the bits in which some pair of bytes differs, beside those that
are set already. The pairs end with the shorter list. -/
def collectDifferences (diff : UInt8) (a b : List UInt8) : UInt8 :=
  (a.zip b).foldl (fun diff pair => diff ||| (pair.1 ^^^ pair.2)) diff

/-- `constant_time_eq`. -/
def constantTimeEq (a b : List UInt8) : Bool :=
  if a.length ≠ b.length then false
  else collectDifferences 0 a b == 0

/-- `verify_signature`. -/
def verifySignature [Platform] (secret : String) (payload : List UInt8) (signature : String) :
    Bool :=
  let expected := signPayload secret payload
  constantTimeEq (asBytes expected) (asBytes signature)

/-- A text is determined by its bytes. -/
theorem as_bytes_injective : Function.Injective asBytes := by
  intro first second h
  have hdata : first.toByteArray.data = second.toByteArray.data := Array.toList_inj.mp h
  exact String.toByteArray_inj.mp (ByteArray.ext hdata)

/-- No pair removes a bit from the collected differences: they are zero at the end exactly if they
were zero at the start and no pair differs. -/
theorem collect_differences_eq_zero {diff : UInt8} {a b : List UInt8} :
    collectDifferences diff a b = 0 ↔ diff = 0 ∧ ∀ pair ∈ a.zip b, pair.1 = pair.2 := by
  unfold collectDifferences
  induction a.zip b generalizing diff with
  | nil => simp
  | cons pair rest ih =>
      rw [List.foldl_cons, ih, UInt8.or_eq_zero_iff, UInt8.xor_eq_zero_iff, and_assoc,
        List.forall_mem_cons]

/-- Lists of one length are equal if their pairs are. -/
theorem eq_of_zip {α : Type} {a b : List α} (hlength : a.length = b.length)
    (hpairs : ∀ pair ∈ a.zip b, pair.1 = pair.2) : a = b := by
  induction a generalizing b with
  | nil => exact (List.length_eq_zero_iff.mp hlength.symm).symm
  | cons x a ih =>
      cases b with
      | nil => cases hlength
      | cons y b =>
          rw [List.zip_cons_cons, List.forall_mem_cons] at hpairs
          obtain ⟨hhead, htail⟩ := hpairs
          rw [ih (Nat.succ.inj hlength) htail, show x = y from hhead]

/-- A list is paired with itself byte by byte. -/
theorem eq_of_mem_zip_self {α : Type} {a : List α} : ∀ pair ∈ a.zip a, pair.1 = pair.2 := by
  induction a with
  | nil => simp
  | cons x a ih =>
      rw [List.zip_cons_cons, List.forall_mem_cons]
      exact ⟨rfl, ih⟩

/-- The comparison accepts a list for itself only: no prefix, no extension, and no list whose
differences could cancel out. -/
theorem constant_time_eq_iff {a b : List UInt8} : constantTimeEq a b = true ↔ a = b := by
  unfold constantTimeEq
  constructor
  · intro h
    split at h
    · cases h
    · rename_i hlength
      exact eq_of_zip (not_not.mp hlength) (collect_differences_eq_zero.mp (beq_iff_eq.mp h)).2
  · intro h
    subst h
    rw [if_neg (not_not.mpr rfl), beq_iff_eq]
    exact collect_differences_eq_zero.mpr ⟨rfl, eq_of_mem_zip_self⟩

-- Two differences in the same bits do not cancel out, and a prefix is too short.
example : constantTimeEq [7, 7] [6, 6] = false ∧ constantTimeEq [7] [7, 7] = false ∧
    constantTimeEq [7, 6] [7, 6] = true := by
  decide

/-- A signature is verified exactly if it is the text that signing produces. -/
theorem verify_signature_iff [Platform] {secret signature : String} {payload : List UInt8} :
    verifySignature secret payload signature = true ↔ signature = signPayload secret payload := by
  rw [verifySignature, constant_time_eq_iff, as_bytes_injective.eq_iff, eq_comm]

end StellarPay
