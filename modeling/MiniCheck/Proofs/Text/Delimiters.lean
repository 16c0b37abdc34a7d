import MiniCheck.Text.Layout

/-!
# Texts that are cut at a character

A part of a text that ends in front of a character which it does not hold can be told from what
comes behind it. So the lines of a text can be told apart, and so can its columns, be they filled
up with blanks or not.
-/

namespace MiniCheck
namespace Text

section Cutting

variable {α : Type}

/-- A list is cut in one way only in front of the first `c`. -/
theorem cut_unique {c : α} {front front' rest rest' : List α} (hfront : c ∉ front)
    (hfront' : c ∉ front') (h : front ++ c :: rest = front' ++ c :: rest') :
    front = front' ∧ rest = rest' := by
  induction front generalizing front' with
  | nil =>
    cases front' with
    | nil => exact ⟨rfl, (List.cons.inj h).2⟩
    | cons d ds =>
      obtain ⟨rfl, _⟩ := List.cons.inj h
      exact absurd List.mem_cons_self hfront'
  | cons d ds ih =>
    cases front' with
    | nil =>
      obtain ⟨rfl, _⟩ := List.cons.inj h
      exact absurd List.mem_cons_self hfront
    | cons d' ds' =>
      obtain ⟨rfl, htail⟩ := List.cons.inj h
      obtain ⟨rfl, hrest⟩ := ih (List.not_mem_of_not_mem_cons hfront)
        (List.not_mem_of_not_mem_cons hfront') htail
      exact ⟨rfl, hrest⟩

/-- Parts that were put together are told apart by a separator whose first element none of them
has. -/
theorem intercalate_unique {c : α} {cs : List α} {parts parts' : List (List α)}
    (hparts : ∀ part ∈ parts, c ∉ part) (hparts' : ∀ part ∈ parts', c ∉ part) (hne : parts ≠ [])
    (hne' : parts' ≠ [])
    (h : (c :: cs).intercalate parts = (c :: cs).intercalate parts') : parts = parts' := by
  induction parts generalizing parts' with
  | nil => exact absurd rfl hne
  | cons part rest ih =>
    obtain ⟨part', rest', rfl⟩ := List.exists_cons_of_ne_nil hne'
    obtain ⟨hpart, hrest⟩ := List.forall_mem_cons.mp hparts
    obtain ⟨hpart', hrest'⟩ := List.forall_mem_cons.mp hparts'
    -- A single part does not hold the separator, so the other list is a single part too.
    cases rest with
    | nil =>
      cases rest' with
      | nil =>
        rw [List.intercalate_singleton, List.intercalate_singleton] at h
        rw [h]
      | cons next' later' =>
        rw [List.intercalate_singleton, List.intercalate_cons_cons, List.append_assoc] at h
        rw [h] at hpart
        exact absurd (List.mem_append_right _ (List.mem_append_left _ List.mem_cons_self)) hpart
    | cons next later =>
      cases rest' with
      | nil =>
        rw [List.intercalate_singleton, List.intercalate_cons_cons, List.append_assoc] at h
        rw [← h] at hpart'
        exact absurd (List.mem_append_right _ (List.mem_append_left _ List.mem_cons_self)) hpart'
      | cons next' later' =>
        rw [List.intercalate_cons_cons, List.intercalate_cons_cons, List.append_assoc,
          List.append_assoc, List.cons_append, List.cons_append] at h
        obtain ⟨rfl, hbehind⟩ := cut_unique hpart hpart' h
        rw [ih hrest hrest' (List.cons_ne_nil _ _) (List.cons_ne_nil _ _)
          (List.append_cancel_left hbehind)]

end Cutting

/-- Texts are told apart that were put together with a separator whose first character none of
them holds. -/
theorem joined_unique {sep : String} {c : Char} {cs : List Char} (hsep : sep.toList = c :: cs)
    {parts parts' : List String} (hparts : ∀ part ∈ parts, c ∉ part.toList)
    (hparts' : ∀ part ∈ parts', c ∉ part.toList) (hne : parts ≠ []) (hne' : parts' ≠ [])
    (h : sep.intercalate parts = sep.intercalate parts') : parts = parts' := by
  have hchars := congrArg String.toList h
  rw [String.toList_intercalate, String.toList_intercalate, hsep] at hchars
  have hmap := intercalate_unique (List.forall_mem_map.mpr hparts) (List.forall_mem_map.mpr hparts')
    (mt List.map_eq_nil_iff.mp hne) (mt List.map_eq_nil_iff.mp hne') hchars
  exact (List.map_inj_right fun _ _ => String.toList_inj.mp).mp hmap

/-- A text without blanks is told from the columns behind it, whether its own column has room for
it or not. -/
theorem padRight_unique {n : Nat} {s s' rest rest' : String} (hs : ' ' ∉ s.toList)
    (hs' : ' ' ∉ s'.toList)
    (h : padRight n s ++ (" " ++ rest) = padRight n s' ++ (" " ++ rest')) :
    s = s' ∧ rest = rest' := by
  have hblanks : ∀ s rest : String, (padRight n s ++ (" " ++ rest)).toList =
      s.toList ++ ' ' :: (List.replicate (n - s.length) ' ' ++ rest.toList) := by
    intro s rest
    have hcommute : List.replicate (n - s.length) ' ' ++ ' ' :: rest.toList =
        ' ' :: (List.replicate (n - s.length) ' ' ++ rest.toList) := by
      rw [List.append_cons, ← List.replicate_succ', List.replicate_succ, List.cons_append]
    rw [padRight, rule, String.toList_append, String.toList_append, String.toList_append,
      String.toList_ofList, List.append_assoc, ← hcommute]
    rfl
  have hchars := congrArg String.toList h
  rw [hblanks, hblanks] at hchars
  obtain ⟨hnames, hbehind⟩ := cut_unique hs hs' hchars
  obtain rfl := String.toList_inj.mp hnames
  exact ⟨rfl, String.toList_inj.mp (List.append_cancel_left hbehind)⟩

end Text
end MiniCheck
