import MiniCheck.Proofs.Token.Material
import MiniCheck.Proofs.Token.Scanning

/-!
# The tokens of a text

Together: what stays of a text is divided into tokens by the rules, nothing of it is lost,
and every token stands where it says.
-/

namespace MiniCheck
namespace Token

/-- The first character of a token stands in a text where the token says. -/
def StandsIn (s : String) (t : Token) : Prop :=
  ∃ pre c post, s.toList = pre ++ c :: post ∧ t.lexeme.toList.head? = some c ∧
    t.location = Location.afterText pre

theorem keeps_material (s : String) : Trivia.Keeps [] s.toList (material s) := by
  obtain ⟨gs, hgs⟩ := Trivia.exists_keeps [] s.toList
  have heq : material s = gs := Trivia.visible_of_keeps hgs
  rw [heq]
  exact hgs

section Divisions

variable {s : String} {gs rest : List Glyph} {ts : List Token}

/-- No character that stays is lost. -/
theorem join_lexemes (h : Divides gs ts []) :
    String.join (ts.map Token.lexeme) = Glyph.spelling gs := by
  apply String.toList_inj.mp
  have hchars := h.chars_eq
  have hnil : chars [] = [] := rfl
  rw [hnil, List.append_nil] at hchars
  rw [String.toList_join, List.flatMap_map, ← hchars]
  exact String.toList_ofList.symm

theorem standsIn_of_divides (hgs : Trivia.Keeps [] s.toList gs) (h : Divides gs ts rest) :
    ∀ t ∈ ts, StandsIn s t := by
  intro t ht
  obtain ⟨g, hg, hfirst, hlocation⟩ := h.exists_glyph ht
  obtain ⟨pre, post, hsplit, hplace⟩ := hgs.stands g hg
  exact ⟨pre, g.char, post, hsplit, hfirst, hlocation.trans hplace⟩

theorem pairwise_before (hgs : Trivia.Keeps [] s.toList gs) (h : Divides gs ts rest) :
    ts.Pairwise fun t u => t.location.Before u.location := by
  have hplaces := List.pairwise_map.mpr hgs.pairwise
  exact List.pairwise_map.mp (hplaces.sublist h.map_location_sublist)

end Divisions

/-- A text is read by the rules. There is exactly one way to take out blanks and comments,
and what stays is divided into the tokens that are read, of which each stands where it says.
Where reading fails, a token is missing at the front of some rest. At most one keyword begins
a word, so no rule needs an order. -/
theorem ofText_follows_rules (s : String) :
    ∃ gs, Trivia.Keeps [] s.toList gs ∧ (∀ hs, Trivia.Keeps [] s.toList hs → hs = gs) ∧
      (∀ ts, ofText s = .ok ts ↔ Divides gs ts []) ∧
      (∀ ts, ofText s = .ok ts →
        String.join (ts.map Token.lexeme) = Glyph.spelling gs ∧ (∀ t ∈ ts, StandsIn s t) ∧
          ts.Pairwise fun t u => t.location.Before u.location) ∧
      (∀ e, ofText s = .error e ↔ ∃ ts rest, Divides gs ts rest ∧ Stuck rest e) ∧
      ∀ k ∈ Kind.keywords, ∀ l ∈ Kind.keywords, ∀ v w word,
        k.spelling?.map String.toList = some v → l.spelling?.map String.toList = some w →
          v <+: word → w <+: word → k = l := by
  have hgs := keeps_material s
  have hok : ∀ ts, ofText s = .ok ts ↔ Divides (material s) ts [] := fun _ => scan_eq_ok_iff
  refine ⟨material s, hgs, ?_, hok, ?_, fun _ => scan_eq_error_iff, ?_⟩
  · intro hs hhs
    exact Trivia.keeps_unique hhs hgs
  · intro ts hts
    have hdivides := (hok ts).mp hts
    exact ⟨join_lexemes hdivides, standsIn_of_divides hgs hdivides, pairwise_before hgs hdivides⟩
  · intro k hk l hl v w word hv hw hv' hw'
    exact apart_keywords.eq hk hl hv hw hv' hw'

/-- The keyword is cut off the longest name, `int1`, although a comment stands inside it. -/
theorem divides_cut_keyword :
    ∃ gs, Trivia.Keeps [] "in/*/ */t1".toList gs ∧
      Divides gs [⟨.intWord, "int", ⟨1, 1⟩⟩, ⟨.number, "1", ⟨1, 10⟩⟩] [] := by
  obtain ⟨gs, hgs, _, hok, _⟩ := ofText_follows_rules "in/*/ */t1"
  exact ⟨gs, hgs, (hok _).mp rfl⟩
end Token
end MiniCheck
