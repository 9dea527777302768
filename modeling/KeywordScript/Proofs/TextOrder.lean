import Mathlib.Tactic.SplitIfs
import KeywordScript.Value.Basic

/-! The order of texts: they are compared by the first character in which they differ. That is
the lexicographic order of their Unicode scalar values, and also the one of the bytes that encode
them. -/

namespace KeywordScript.Text

def scalars (s : String) : List Nat :=
  s.toList.map Char.toNat

def bytes (s : String) : List UInt8 :=
  s.toByteArray.data.toList

def Precedes (c d : Char) : Prop :=
  c.toNat < d.toNat

section Encoding

variable {α : Type} {r : α → α → Prop}

private theorem lex_append_left_iff (hirrefl : ∀ a, ¬r a a) (l : List α) {xs ys : List α} :
    List.Lex r (l ++ xs) (l ++ ys) ↔ List.Lex r xs ys := by
  induction l with
  | nil => rfl
  | cons a l ih => simp [List.cons_lex_cons_iff, hirrefl, ih]

/-- An encoding of characters keeps the order if it tells two characters apart before either of
their encodings has ended. -/
theorem lex_flatMap_iff {encode : Char → List α} (hasymm : ∀ {a b}, r a b → ¬r b a)
    (hne : ∀ c, encode c ≠ [])
    (hlt : ∀ {c d}, Precedes c d → ∀ p q, List.Lex r (encode c ++ p) (encode d ++ q))
    (cs ds : List Char) :
    List.Lex r (cs.flatMap encode) (ds.flatMap encode) ↔ List.Lex Precedes cs ds := by
  induction cs generalizing ds with
  | nil =>
    cases ds with
    | nil => simp
    | cons d ds =>
      obtain ⟨b, rest, hd⟩ := List.exists_cons_of_ne_nil (hne d)
      simp [hd]
  | cons c cs ih =>
    cases ds with
    | nil => simp
    | cons d ds =>
      rw [List.flatMap_cons, List.flatMap_cons, List.cons_lex_cons_iff]
      rcases Nat.lt_trichotomy c.toNat d.toNat with hcd | hcd | hcd
      · exact iff_of_true (hlt hcd _ _) (.inl hcd)
      · have hsame : c = d := Char.toNat_inj.mp hcd
        have hirrefl : ∀ a, ¬r a a := fun a ha => hasymm ha ha
        rw [hsame, lex_append_left_iff hirrefl, ih]
        simp [Precedes]
      · have hnot : ¬List.Lex r (encode c ++ cs.flatMap encode) (encode d ++ ds.flatMap encode) :=
          List.lex_asymm hasymm (hlt hcd _ _)
        refine iff_of_false hnot ?_
        rintro (hlater | ⟨rfl, -⟩)
        · exact Nat.lt_asymm hcd hlater
        · exact Nat.lt_irrefl _ hcd

end Encoding

section Bytes

/-- Where no byte is larger than the one in the same place, the first that is smaller decides. -/
theorem lex_ofNat_cons {a b : Nat} {p q : List UInt8} (hb : b < 256) (hab : a ≤ b)
    (hrest : a = b → List.Lex (· < ·) p q) :
    List.Lex (· < ·) (UInt8.ofNat a :: p) (UInt8.ofNat b :: q) := by
  rw [List.cons_lex_cons_iff, UInt8.lt_iff_toNat_lt, UInt8.toNat_ofNat', UInt8.toNat_ofNat',
    Nat.mod_eq_of_lt (Nat.lt_of_le_of_lt hab hb), Nat.mod_eq_of_lt hb]
  rcases Nat.lt_or_eq_of_le hab with hlt | heq
  · exact .inl hlt
  · exact .inr ⟨congrArg UInt8.ofNat heq, hrest heq⟩

/-- The first byte in which the encodings of two characters differ is smaller for the smaller
character. -/
theorem lex_utf8EncodeChar {c d : Char} (h : Precedes c d) (p q : List UInt8) :
    List.Lex (· < ·) (String.utf8EncodeChar c ++ p) (String.utf8EncodeChar d ++ q) := by
  have hd : d.val.toNat < 1114112 := by
    rcases d.valid with hlow | ⟨-, hhigh⟩
    · exact Nat.lt_trans hlow (by decide)
    · exact hhigh
  change c.val.toNat < d.val.toNat at h
  unfold String.utf8EncodeChar
  generalize c.val.toNat = n at *
  generalize d.val.toNat = k at *
  dsimp only
  -- One to four bytes for each of the two characters; the smaller one has no more than the other.
  split_ifs
  · exact lex_ofNat_cons (by omega) (by omega) fun _ => by omega
  · exact lex_ofNat_cons (by omega) (by omega) fun _ => by omega
  · exact lex_ofNat_cons (by omega) (by omega) fun _ => by omega
  · exact lex_ofNat_cons (by omega) (by omega) fun _ => by omega
  · omega
  · exact lex_ofNat_cons (by omega) (by omega) fun _ =>
      lex_ofNat_cons (by omega) (by omega) fun _ => by omega
  · exact lex_ofNat_cons (by omega) (by omega) fun _ => by omega
  · exact lex_ofNat_cons (by omega) (by omega) fun _ => by omega
  · omega
  · omega
  · exact lex_ofNat_cons (by omega) (by omega) fun _ =>
      lex_ofNat_cons (by omega) (by omega) fun _ =>
      lex_ofNat_cons (by omega) (by omega) fun _ => by omega
  · exact lex_ofNat_cons (by omega) (by omega) fun _ => by omega
  · omega
  · omega
  · omega
  · exact lex_ofNat_cons (by omega) (by omega) fun _ =>
      lex_ofNat_cons (by omega) (by omega) fun _ =>
      lex_ofNat_cons (by omega) (by omega) fun _ =>
      lex_ofNat_cons (by omega) (by omega) fun _ => by omega

theorem bytes_eq_flatMap (s : String) : bytes s = s.toList.flatMap String.utf8EncodeChar := by
  have hbytes : s.toByteArray = s.toList.utf8Encode := by
    rw [← String.toByteArray_ofList, String.ofList_toList]
  rw [bytes, hbytes, List.utf8Encode, List.data_toByteArray]

theorem lex_bytes_iff (s t : String) :
    List.Lex (· < ·) (bytes s) (bytes t) ↔ List.Lex Precedes s.toList t.toList := by
  rw [bytes_eq_flatMap, bytes_eq_flatMap]
  exact lex_flatMap_iff UInt8.lt_asymm
    (fun c => String.utf8EncodeChar_ne_nil) lex_utf8EncodeChar _ _

end Bytes

theorem lex_scalars_iff (s t : String) :
    List.Lex (· < ·) (scalars s) (scalars t) ↔ List.Lex Precedes s.toList t.toList := by
  rw [scalars, scalars, List.map_eq_flatMap, List.map_eq_flatMap]
  exact lex_flatMap_iff Nat.lt_asymm (fun c => List.cons_ne_nil c.toNat [])
    (fun h p q => .rel h) _ _

theorem compare_eq_lt_iff {s t : String} :
    compare s t = .lt ↔ List.Lex Precedes s.toList t.toList :=
  compareOfLessAndEq_eq_lt

end KeywordScript.Text
