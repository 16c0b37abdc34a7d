import Mathlib.Logic.Function.Iterate
import MiniCheck.Proofs.Token.Tokenizing
import MiniCheck.Token.Scanner

/-!
# Asking a scanner again

A token moves the position past the characters of its lexeme, and a token that cannot be read
leaves it where that token begins. So a scanner that has failed fails in the same way for ever,
and one that has not has nothing left to read.
-/

namespace MiniCheck
namespace Token
namespace Scanner

variable {s : Scanner} {g : Glyph} {gs : List Glyph}

/-! ## One token -/

/-- What can come of reading one token: it stands at the front of what is unread and is passed
over, or there is a reason why none stands there and nothing is. -/
inductive Yields (s : Scanner) : Except ScanError Token × Scanner → Prop
  | token {k : Kind} {g : Glyph} {front rest : List Glyph} (hunread : s.unread = g :: front ++ rest)
      (h : Leads k (chars (g :: front)) (chars rest)) :
      Yields s (.ok ⟨k, Glyph.spelling (g :: front), g.location⟩,
        s.movedTo (s.position + (g :: front).length))
  | stuck {e : ScanError} (h : Stuck s.unread e) : Yields s (.error e, s)

theorem slice_add (s : Scanner) (n : Nat) :
    s.slice (s.position + n) = Glyph.spelling (s.unread.take n) := by
  rw [slice, Nat.add_sub_cancel_left]

theorem getElem?_add (s : Scanner) (n : Nat) :
    s.glyphs[s.position + n]? = (s.unread.drop n).head? := by
  rw [unread, List.drop_drop, List.head?_drop]

theorem unread_of_lt (h : s.position < s.glyphs.length) :
    s.unread = s.glyphs[s.position] :: s.glyphs.drop (s.position + 1) :=
  List.drop_eq_getElem_cons h

theorem Yields.take {k : Kind} {n : Nat} (hunread : s.unread = g :: gs) (hpos : 0 < n)
    (hle : n ≤ s.unread.length)
    (h : Leads k (chars (s.unread.take n)) (chars (s.unread.drop n))) :
    s.Yields (.ok ⟨k, s.slice (s.position + n), g.location⟩, s.movedTo (s.position + n)) := by
  obtain ⟨m, rfl⟩ : ∃ m, n = m + 1 := ⟨n - 1, by omega⟩
  have htake : s.unread.take (m + 1) = g :: gs.take m := by rw [hunread, List.take_succ_cons]
  have hlength : (g :: gs.take m).length = m + 1 := by rw [← htake, List.length_take_of_le hle]
  have hsplit : s.unread = g :: gs.take m ++ s.unread.drop (m + 1) := by
    rw [← htake, List.take_append_drop]
  rw [slice_add]
  rw [htake] at h ⊢
  rw [← hlength]
  exact .token hsplit h

theorem longest_of_longestMatch {A : Automaton Char} {stop : Nat}
    (h : s.longestMatch A = some stop) :
    ∃ n, A.longest (chars s.unread) = some n ∧ stop = s.position + n := by
  rw [longestMatch_eq] at h
  obtain ⟨n, hn, rfl⟩ := Option.map_eq_some_iff.mp h
  exact ⟨n, hn, rfl⟩

theorem longest_of_longestMatch_none {A : Automaton Char} (h : s.longestMatch A = none) :
    A.longest (chars s.unread) = none := by
  rw [longestMatch_eq] at h
  exact Option.map_eq_none_iff.mp h

theorem le_of_longest {A : Automaton Char} {n : Nat} (h : A.longest (chars s.unread) = some n) :
    0 < n ∧ n ≤ s.unread.length := by
  have hbounds := A.longest_pos h
  rwa [chars, List.length_map] at hbounds

theorem yields_number {n : Nat} (hunread : s.unread = g :: gs)
    (h : numberAutomaton.longest (chars s.unread) = some n) :
    s.Yields (s.number g.location (s.position + n)) := by
  obtain ⟨hpos, hle⟩ := le_of_longest h
  have hlongest := numberAutomaton_recognizes.longest h
  rw [← chars_take, ← chars_drop] at hlongest
  unfold number
  rw [getElem?_add]
  cases hdrop : s.unread.drop n with
  | nil =>
    have hrest : ∀ c ∈ (chars (s.unread.drop n)).head?, ¬ RunsOn c := by
      rw [hdrop]
      exact fun _ hc => absurd hc (by simp [chars])
    exact .take hunread hpos hle (.number hlongest hrest)
  | cons last rest =>
    simp only [List.head?_cons]
    by_cases hlast : clashes last.char = true
    · rw [hunread] at hdrop hlongest
      rw [hdrop] at hlongest
      have hstuck := stuck_of_longest hpos hdrop hlongest (runsOn_iff.mpr hlast)
      rw [if_pos hlast, Nat.add_assoc, slice_add]
      rw [← hunread] at hstuck
      exact .stuck hstuck
    · have hrest : ∀ c ∈ (chars (s.unread.drop n)).head?, ¬ RunsOn c := by
        rw [hdrop]
        intro c hc hruns
        cases hc
        exact hlast (runsOn_iff.mp hruns)
      rw [if_neg hlast]
      exact .take hunread hpos hle (.number hlongest hrest)

/-! ## Marks and words -/

section Spellings

variable {ks : List Kind} {k : Kind}

theorem mark?_eq_some (h : s.mark? ks = some k) :
    k ∈ ks ∧ ∃ front, k.spelling?.map String.toList = some front ∧ front <+: chars s.unread := by
  refine ⟨List.mem_of_find?_eq_some h, ?_⟩
  have hspells := List.find?_some h
  cases hspelling : k.spelling? with
  | none =>
    rw [hspelling] at hspells
    cases hspells
  | some w =>
    rw [hspelling, Option.any_some] at hspells
    exact ⟨w.toList, rfl, spells_iff.mp hspells⟩

theorem noBeginning_of_mark? (h : s.mark? ks = none) :
    NoBeginning (IsSpelling ks) (chars s.unread) := by
  rintro front hbegins ⟨k, hk, hfront⟩
  obtain ⟨w, hw, rfl⟩ := Option.map_eq_some_iff.mp hfront
  have hno := List.find?_eq_none.mp h k hk
  rw [hw, Option.any_some] at hno
  exact hno (spells_iff.mpr hbegins)

theorem noBeginning_of_keyword? {word : String} (h : keyword? word = none) :
    NoBeginning (IsSpelling Kind.keywords) word.toList := by
  rintro front hbegins ⟨k, hk, hfront⟩
  obtain ⟨w, hw, rfl⟩ := Option.map_eq_some_iff.mp hfront
  have hno := List.findSome?_eq_none_iff.mp h k hk
  rw [hw, Option.map_eq_none_iff, Option.filter_eq_none_iff] at hno
  exact hno w rfl (List.isPrefixOf_iff_prefix.mpr hbegins)

theorem length_pair (hk : k ∈ Kind.pairs) {front : List Char}
    (h : k.spelling?.map String.toList = some front) : front.length = 2 := by
  have hlengths : ∀ k ∈ Kind.pairs, (k.spelling?.map String.toList).map List.length = some 2 := by
    decide +kernel
  have hlength := hlengths k hk
  rw [h] at hlength
  exact Option.some.inj hlength

theorem length_single (hk : k ∈ Kind.singles) {front : List Char}
    (h : k.spelling?.map String.toList = some front) : front.length = 1 := by
  have hlengths : ∀ k ∈ Kind.singles, (k.spelling?.map String.toList).map List.length = some 1 := by
    decide +kernel
  have hlength := hlengths k hk
  rw [h] at hlength
  exact Option.some.inj hlength

end Spellings

section Branches

variable {k : Kind} {front : List Char}

theorem append_chars_drop (hbegins : front <+: chars s.unread) :
    front ++ chars (s.unread.drop front.length) = chars s.unread := by
  have hsplit := take_append_chars_drop front.length s.unread
  rwa [take_of_begins hbegins] at hsplit

theorem Yields.begins (hunread : s.unread = g :: gs) (hpos : 0 < front.length)
    (hbegins : front <+: chars s.unread)
    (h : Leads k front (chars (s.unread.drop front.length))) :
    s.Yields (.ok ⟨k, s.slice (s.position + front.length), g.location⟩,
      s.movedTo (s.position + front.length)) := by
  have hle := hbegins.length_le
  rw [chars, List.length_map] at hle
  refine .take hunread hpos hle ?_
  rw [take_of_begins hbegins]
  exact h

theorem yields_pair (hunread : s.unread = g :: gs) (hno : NoNumber (chars s.unread))
    (h : s.mark? Kind.pairs = some k) :
    s.Yields (.ok ⟨k, s.slice (s.position + 2), g.location⟩, s.movedTo (s.position + 2)) := by
  obtain ⟨hk, front, hfront, hbegins⟩ := mark?_eq_some h
  have hlength := length_pair hk hfront
  rw [← append_chars_drop hbegins] at hno
  have hyields := Yields.begins hunread (by omega) hbegins (.pair hno hk hfront)
  rwa [hlength] at hyields

theorem yields_single (hunread : s.unread = g :: gs) (hno : NoPair (chars s.unread))
    (h : s.mark? Kind.singles = some k) :
    s.Yields (.ok ⟨k, String.singleton g.char, g.location⟩, s.movedTo (s.position + 1)) := by
  obtain ⟨hk, front, hfront, hbegins⟩ := mark?_eq_some h
  have hlength := length_single hk hfront
  rw [← append_chars_drop hbegins] at hno
  have hyields := Yields.begins hunread (by omega) hbegins (.single hno hk hfront)
  rw [hlength, slice_add, hunread] at hyields
  exact hyields

theorem yields_word {n : Nat} (hunread : s.unread = g :: gs) (hno : NoMark (chars s.unread))
    (h : nameAutomaton.longest (chars s.unread) = some n) :
    s.Yields (.ok (s.word g.location (s.position + n)).1,
      (s.word g.location (s.position + n)).2) := by
  obtain ⟨hpos, hle⟩ := le_of_longest h
  have hlongest := nameAutomaton_recognizes.longest h
  have hname : (s.slice (s.position + n)).toList = (chars s.unread).take n := by
    rw [slice_add, ← chars_take]
    exact String.toList_ofList
  unfold word
  cases hkeyword : keyword? (s.slice (s.position + n)) with
  | some found =>
    obtain ⟨k, w⟩ := found
    obtain ⟨hk, hspelling, hbegins⟩ := keyword?_eq_some hkeyword
    rw [hname] at hbegins
    have hfront : w.toList <+: chars s.unread := hbegins.trans (List.take_prefix _ _)
    obtain ⟨more, hmore⟩ := hbegins
    have hsplit : w.toList ++ chars (s.unread.drop w.toList.length) =
        w.toList ++ (more ++ (chars s.unread).drop n) := by
      rw [append_chars_drop hfront, ← List.append_assoc, hmore, List.take_append_drop]
    have hrest := List.append_cancel_left hsplit
    have hlexeme : s.slice (s.position + w.toList.length) = w := by
      rw [slice_add]
      apply String.toList_inj.mp
      exact String.toList_ofList.trans (take_of_begins hfront)
    rw [← append_chars_drop hfront, hrest] at hno
    have hlongest' : Longest IsName (w.toList ++ more) ((chars s.unread).drop n) := by
      rw [hmore]
      exact hlongest
    have hleads : Leads k w.toList (chars (s.unread.drop w.toList.length)) := by
      rw [hrest]
      exact .keyword hno hlongest' hk (congrArg (Option.map String.toList) hspelling)
    have hlength := Kind.length_pos_of_spelling hspelling
    rw [← String.length_toList] at hlength
    have hyields := Yields.begins hunread hlength hfront hleads
    rw [hlexeme, String.length_toList] at hyields
    exact hyields
  | none =>
    have hkeyword := noBeginning_of_keyword? hkeyword
    rw [hname] at hkeyword
    have hsplit := List.take_append_drop n (chars s.unread)
    rw [← hsplit] at hno
    have hleads : Leads .name ((chars s.unread).take n) ((chars s.unread).drop n) :=
      .name hno hlongest hkeyword
    rw [← chars_take, ← chars_drop] at hleads
    exact .take hunread hpos hle hleads

theorem yields_token (h : s.position < s.glyphs.length) : s.Yields (s.token h) := by
  have hunread := unread_of_lt h
  unfold token
  split
  · rename_i stop hstop
    obtain ⟨n, hn, rfl⟩ := longest_of_longestMatch hstop
    exact yields_number hunread hn
  · rename_i hnumber
    have hnoNumber : NoNumber (chars s.unread) :=
      ⟨numberAutomaton_recognizes.noBeginning (longest_of_longestMatch_none hnumber)⟩
    split
    · rename_i k hpair
      exact yields_pair hunread hnoNumber hpair
    · rename_i hpair
      have hnoPair : NoPair (chars s.unread) := ⟨hnoNumber, noBeginning_of_mark? hpair⟩
      split
      · rename_i k hsingle
        exact yields_single hunread hnoPair hsingle
      · rename_i hsingle
        have hnoMark : NoMark (chars s.unread) := ⟨hnoPair, noBeginning_of_mark? hsingle⟩
        split
        · rename_i stop hstop
          obtain ⟨n, hn, rfl⟩ := longest_of_longestMatch hstop
          exact yields_word hunread hnoMark hn
        · rename_i hname
          have hnoName :=
            nameAutomaton_recognizes.noBeginning (longest_of_longestMatch_none hname)
          refine .stuck ?_
          rw [hunread] at hnoMark hnoName ⊢
          exact .unexpected hnoMark hnoName

end Branches

/-! ## What a token does to the position -/

/-- The scanner stands in front of a token that cannot be read for the reason `e`. -/
structure StandsAt (s : Scanner) (e : ScanError) : Prop where
  location : (s.unread.head?.map Glyph.location) = some e.location
  text : e.text.toList <+: chars s.unread

theorem standsAt_of_stuck {e : ScanError} (h : Stuck s.unread e) : s.StandsAt e := by
  generalize hunread : s.unread = gs at h
  cases h with
  | @badNumber g last front rest h hlast =>
    refine ⟨by rw [hunread]; rfl, ?_⟩
    have htext : (ScanError.badNumber (Glyph.spelling (g :: front ++ [last])) g.location).text.toList
        = chars (g :: front ++ [last]) := String.toList_ofList
    rw [hunread, htext]
    exact ⟨chars rest, by rw [← chars_append, List.append_assoc]; rfl⟩
  | @unexpected g rest hno hname =>
    refine ⟨by rw [hunread]; rfl, ?_⟩
    have htext : (ScanError.unexpected g.char g.location).text.toList = chars [g] :=
      String.toList_singleton _
    rw [hunread, htext]
    exact ⟨chars rest, rfl⟩

theorem unread_movedTo (n : Nat) : (s.movedTo (s.position + n)).unread = s.unread.drop n := by
  rw [unread, unread, List.drop_drop]
  rfl

/-- What is passed over was there. -/
theorem add_length_le {front rest : List Glyph} (h : s.position ≤ s.glyphs.length)
    (hunread : s.unread = front ++ rest) : s.position + front.length ≤ s.glyphs.length := by
  have hlength := congrArg List.length hunread
  rw [unread, List.length_drop, List.length_append] at hlength
  omega

theorem length_spelling (gs : List Glyph) : (Glyph.spelling gs).length = gs.length := by
  rw [Glyph.spelling, String.length_ofList, List.length_map]

theorem token_of_stuck {e : ScanError} (h : s.position < s.glyphs.length)
    (hstuck : Stuck s.unread e) : s.token h = (.error e, s) := by
  have hyields := yields_token h
  generalize s.token h = read at hyields
  cases hyields with
  | @token k g front rest hunread hleads =>
    rw [hunread] at hstuck
    have hleading := leading_of_leads hleads (chars_append (g :: front) rest)
    rw [leading_of_stuck hstuck] at hleading
    cases hleading
  | @stuck e' hstuck' =>
    rw [unread_of_lt h] at hstuck hstuck'
    have heq := leading_of_stuck hstuck
    rw [leading_of_stuck hstuck'] at heq
    cases heq
    rfl

/-! ## One call -/

/-- What can come of a call: all that is unread is divided into tokens and taken, or only what
stands in front of a token that cannot be read. -/
inductive Answers (s : Scanner) : Except ScanError (List Token) × Scanner → Prop
  | all {ts : List Token} (h : Divides s.unread ts []) :
      Answers s (.ok ts, s.movedTo s.glyphs.length)
  | stuck {ts : List Token} {e : ScanError} {n : Nat}
      (h : Divides s.unread ts (s.movedTo n).unread) (hstuck : Stuck (s.movedTo n).unread e) :
      Answers s (.error e, s.movedTo n)

theorem answers_tokenize (h : s.position ≤ s.glyphs.length) : s.Answers s.tokenize := by
  fun_induction tokenize s with
  | case1 s hlt e later ht =>
    have hyields := yields_token hlt
    rw [ht] at hyields
    cases hyields with
    | stuck hstuck => exact .stuck (n := s.position) .nil hstuck
  | case2 s hlt t later ht hmoves rest ih =>
    have hyields := yields_token hlt
    rw [ht] at hyields
    cases hyields with
    | @token k g front behind hunread hleads =>
      have hlater : (s.movedTo (s.position + (g :: front).length)).unread = behind := by
        rw [unread_movedTo, hunread, List.drop_left]
      have hrest : Answers _ rest := ih (add_length_le h hunread)
      clear_value rest
      cases hrest with
      | @all ts h' =>
        rw [hlater] at h'
        have hdivides := Divides.cons hleads h'
        rw [← hunread] at hdivides
        exact .all hdivides
      | @stuck ts e n h' hstuck =>
        rw [hlater] at h'
        have hdivides := Divides.cons hleads h'
        rw [← hunread] at hdivides
        exact .stuck hdivides hstuck
  | case3 s hlt =>
    have hunread : s.unread = [] := List.drop_eq_nil_of_le (Nat.le_of_not_lt hlt)
    have hend : s.glyphs.length = s.position := Nat.le_antisymm (Nat.le_of_not_lt hlt) h
    have hall : s.Answers (.ok [], s.movedTo s.glyphs.length) := .all (hunread ▸ .nil)
    rw [hend] at hall
    exact hall

theorem answers_ofText (text : String) : (ofText text).Answers (ofText text).tokenize :=
  answers_tokenize (Nat.zero_le _)

theorem answer_ofText (text : String) : (ofText text).answer = Token.ofText text := by
  have hanswers := answers_ofText text
  unfold answer
  generalize (ofText text).tokenize = read at hanswers
  cases hanswers with
  | all h => exact (scan_eq_ok_iff.mpr h).symm
  | stuck h hstuck => exact (scan_eq_error_iff.mpr ⟨_, _, h, hstuck⟩).symm

/-! ## Many calls -/

theorem tokenize_of_unread_nil (h : s.unread = []) : s.tokenize = (.ok [], s) := by
  have hlt : ¬ s.position < s.glyphs.length := Nat.not_lt.mpr (List.drop_eq_nil_iff.mp h)
  rw [tokenize, dif_neg hlt]

theorem tokenize_of_stuck {e : ScanError} (h : Stuck s.unread e) : s.tokenize = (.error e, s) := by
  have hlt : s.position < s.glyphs.length := by
    refine Nat.lt_of_not_le fun hle => ?_
    have hhead := (standsAt_of_stuck h).location
    rw [unread, List.drop_eq_nil_of_le hle] at hhead
    cases hhead
  rw [tokenize, dif_pos hlt]
  split
  · rename_i ht
    rw [token_of_stuck hlt h] at ht
    cases ht
    rfl
  · rename_i ht
    rw [token_of_stuck hlt h] at ht
    cases ht

/-- Where a call leaves the scanner as it is, all later calls do. -/
theorem iterate_of_tokenize {answer : Except ScanError (List Token)}
    (h : s.tokenize = (answer, s)) (k : Nat) :
    next^[k] s = s ∧ (next^[k] s).answer = answer := by
  have hnext : s.next = s := congrArg Prod.snd h
  rw [Function.iterate_fixed hnext k]
  exact ⟨rfl, congrArg Prod.fst h⟩

/-- However often a scanner is asked, its answers are settled by the first one, which is the scan
of the text: behind tokens all calls find none, and an error is repeated by all later calls, which
stay in front of the token that is to blame. A token moves the position past its lexeme, which is
not empty, and not beyond the text; one that cannot be read does not move it. -/
theorem answers_settled (text : String) :
    let first := ofText text
    first.answer = Token.ofText text ∧
      (∀ ts, first.answer = .ok ts → ∀ k, (next^[k] first.next).answer = .ok [] ∧
        (next^[k] first.next).position = first.glyphs.length) ∧
      (∀ e, first.answer = .error e → first.next.StandsAt e ∧
        ∀ k, next^[k] first.next = first.next ∧ (next^[k] first.next).answer = .error e) ∧
      ∀ (s : Scanner) (h : s.position < s.glyphs.length),
        (∀ t later, s.token h = (.ok t, later) →
          later = s.movedTo (s.position + t.lexeme.length) ∧ 0 < t.lexeme.length ∧
            later.position ≤ s.glyphs.length ∧ t.lexeme = s.slice later.position) ∧
        ∀ e later, s.token h = (.error e, later) → later = s ∧ s.StandsAt e := by
  intro first
  refine ⟨answer_ofText text, ?_, ?_, ?_⟩
  · intro ts hanswer
    have hanswers : first.Answers first.tokenize := answers_ofText text
    unfold answer at hanswer
    unfold next
    generalize first.tokenize = read at hanswers hanswer
    cases hanswers with
    | all h =>
      have hnil : (first.movedTo first.glyphs.length).unread = [] := List.drop_length
      intro k
      obtain ⟨hstay, hok⟩ := iterate_of_tokenize (tokenize_of_unread_nil hnil) k
      exact ⟨hok, congrArg position hstay⟩
    | stuck h hstuck => cases hanswer
  · intro e hanswer
    have hanswers : first.Answers first.tokenize := answers_ofText text
    unfold answer at hanswer
    unfold next
    generalize first.tokenize = read at hanswers hanswer
    cases hanswers with
    | all h => cases hanswer
    | stuck h hstuck =>
      cases hanswer
      exact ⟨standsAt_of_stuck hstuck, iterate_of_tokenize (tokenize_of_stuck hstuck)⟩
  · intro s h
    have hyields := yields_token h
    generalize s.token h = read at hyields
    cases hyields with
    | @token k g front rest hunread hleads =>
      refine ⟨?_, fun e later heq => by cases heq⟩
      intro t later heq
      cases heq
      have hlength := length_spelling (g :: front)
      have hslice : s.slice (s.position + (g :: front).length) = Glyph.spelling (g :: front) := by
        rw [slice_add, hunread, List.take_left]
      refine ⟨by rw [hlength], ?_, add_length_le (Nat.le_of_lt h) hunread, hslice.symm⟩
      rw [hlength]
      exact Nat.succ_pos _
    | stuck hstuck =>
      refine ⟨fun t later heq => (by cases heq), ?_⟩
      intro e later heq
      cases heq
      exact ⟨rfl, standsAt_of_stuck hstuck⟩

/-- The number is refused only at its end, four characters behind the position, which is still
the second one after any number of calls. Two names are read by one call and no other. -/
theorem answers_settled_bad_number :
    let first := ofText "; # one\n12.5x"
    let refused := ScanError.badNumber "12.5x" ⟨2, 1⟩
    first.answer = .error refused ∧ first.next.StandsAt refused ∧
      (∀ k, (next^[k] first.next).answer = .error refused) ∧
      (∀ k, (next^[k] (ofText "a+b").next).answer = .ok []) ∧
      ∃ h : (first.movedTo 1).position < first.glyphs.length,
        (first.movedTo 1).token h = (.error refused, first.movedTo 1) ∧
        (first.movedTo 1).StandsAt refused := by
  intro first refused
  obtain ⟨hfirst, _, herror, htoken⟩ := answers_settled "; # one\n12.5x"
  obtain ⟨hfirst', hok, _, _⟩ := answers_settled "a+b"
  have hrefused : first.answer = .error refused := hfirst.trans (by rfl)
  have hread : (ofText "a+b").answer = .ok [⟨.name, "a", ⟨1, 1⟩⟩, ⟨.plus, "+", ⟨1, 2⟩⟩,
      ⟨.name, "b", ⟨1, 3⟩⟩] := hfirst'.trans (by rfl)
  obtain ⟨hstands, hrepeats⟩ := herror refused hrefused
  have hlt : (first.movedTo 1).position < first.glyphs.length := by decide
  have hstuck : (first.movedTo 1).token hlt = (.error refused, first.movedTo 1) := by rfl
  exact ⟨hrefused, hstands, fun k => (hrepeats k).2, fun k => (hok _ hread k).1, hlt, hstuck,
    ((htoken _ hlt).2 _ _ hstuck).2⟩

end Scanner
end Token
end MiniCheck
