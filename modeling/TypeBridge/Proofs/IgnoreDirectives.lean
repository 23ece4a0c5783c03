import Mathlib.Data.List.Infix
import TypeBridge.Directive
import TypeBridge.Proofs.Text

/-!
Which names directives list. The pattern of a directive is looked for once in a comment: it is found
at the first marker, takes a colon if there is one, and then as few characters as it can up to the end
of the line or of the block comment. So a comment lists what the first of its lines with a directive
lists, be it the only line or one of many, and directives in later lines of the same comment are
passed over. Cutting comments into their lines changes nothing exactly if no line after the first one
with a directive lists a name.
-/

namespace TypeBridge.Directive

open Text (splitChars commaList)

/-! ### The first occurrence of a word -/

theorem prefix_of_isPrefixOf {word cs : List Char} (h : word.isPrefixOf cs = true) :
    cs = word ++ cs.drop word.length :=
  (List.prefix_iff_eq_append.mp (List.isPrefixOf_iff_prefix.mp h)).symm

theorem afterFirst?_eq_none_iff {word : List Char} (hne : word ≠ []) {cs : List Char} :
    afterFirst? word cs = none ↔ ¬ word <:+: cs := by
  induction cs with
  | nil => simp [afterFirst?, hne]
  | cons c rest ih =>
      rw [afterFirst?, List.infix_cons_iff]
      split
      · rename_i hprefix
        simp [List.isPrefixOf_iff_prefix.mp hprefix]
      · rename_i hprefix
        rw [List.isPrefixOf_iff_prefix] at hprefix
        simp [ih, hprefix]

/-- What is left after the first occurrence of a word: no occurrence has less before it. -/
theorem afterFirst?_eq_some_iff {word : List Char} (hne : word ≠ []) {cs rest : List Char} :
    afterFirst? word cs = some rest ↔ ∃ front, cs = front ++ (word ++ rest) ∧
      ∀ front' rest', cs = front' ++ (word ++ rest') → front.length ≤ front'.length := by
  induction cs with
  | nil => simp [afterFirst?, hne]
  | cons c cs ih =>
      rw [afterFirst?]
      split
      · rename_i hprefix
        have hcs := prefix_of_isPrefixOf hprefix
        constructor
        · intro h
          cases h
          exact ⟨[], hcs, fun _ _ _ => Nat.zero_le _⟩
        · rintro ⟨front, hfront, hfirst⟩
          have hnil : front = [] := List.length_eq_zero_iff.mp
            (Nat.le_zero.mp (hfirst [] _ hcs))
          rw [hfront, hnil, List.nil_append, List.drop_left]
      · rename_i hprefix
        rw [ih]
        constructor
        · rintro ⟨front, rfl, hfirst⟩
          refine ⟨c :: front, rfl, fun front' rest' h => ?_⟩
          cases front' with
          | nil =>
              have hword : word <+: c :: (front ++ (word ++ rest)) := ⟨rest', h.symm⟩
              exact absurd (List.isPrefixOf_iff_prefix.mpr hword) hprefix
          | cons d front' =>
              exact Nat.succ_le_succ (hfirst front' rest' (List.cons.inj h).2)
        · rintro ⟨front, hfront, hfirst⟩
          cases front with
          | nil =>
              have hword : word <+: c :: cs := ⟨rest, hfront.symm⟩
              exact absurd (List.isPrefixOf_iff_prefix.mpr hword) hprefix
          | cons d front =>
              obtain ⟨rfl, rfl⟩ := List.cons.inj hfront
              refine ⟨front, rfl, fun front' rest' h => ?_⟩
              exact Nat.le_of_succ_le_succ (hfirst (c :: front') rest' (congrArg (c :: ·) h))

theorem prefix_before_break_iff {word : List Char} (hword : '\n' ∉ word) (line rest : List Char) :
    word <+: line ++ '\n' :: rest ↔ word <+: line := by
  refine ⟨fun h => ?_, fun h => h.trans (List.prefix_append _ _)⟩
  rcases List.prefix_or_prefix_of_prefix h (List.prefix_append line _) with hline | ⟨more, rfl⟩
  · exact hline
  · rw [List.prefix_append_right_inj] at h
    cases more with
    | nil => rw [List.append_nil]
    | cons c more =>
        obtain ⟨rfl, -⟩ := List.cons_prefix_cons.mp h
        exact absurd (List.mem_append_right _ List.mem_cons_self) hword

/-- A word without a line break is not found across one. -/
theorem afterFirst?_append {word : List Char} (hne : word ≠ []) (hword : '\n' ∉ word)
    (line rest : List Char) : afterFirst? word (line ++ '\n' :: rest) =
      match afterFirst? word line with
      | some after => some (after ++ '\n' :: rest)
      | none => afterFirst? word rest := by
  have hprefix : ∀ line : List Char,
      word.isPrefixOf (line ++ '\n' :: rest) = word.isPrefixOf line := fun line => by
    rw [Bool.eq_iff_iff, List.isPrefixOf_iff_prefix, List.isPrefixOf_iff_prefix,
      prefix_before_break_iff hword]
  induction line with
  | nil =>
      have hnil : word.isPrefixOf ('\n' :: rest) = false := by
        rw [← List.nil_append ('\n' :: rest), hprefix, ← Bool.not_eq_true,
          List.isPrefixOf_iff_prefix, List.prefix_nil]
        exact hne
      simp [afterFirst?, hnil, hne]
  | cons c line ih =>
      have hcons := hprefix (c :: line)
      rw [List.cons_append] at hcons ⊢
      rw [afterFirst?, hcons, afterFirst?]
      split
      · rename_i hhere
        have hlength : word.length ≤ (c :: line).length :=
          (List.isPrefixOf_iff_prefix.mp hhere).length_le
        rw [← List.cons_append, List.drop_append_of_le_length hlength]
      · exact ih

/-! ### What a directive lists -/

/-- Where a list of names ends: at the end of the comment, of its line, or of the block comment. -/
def Ends (rest : List Char) : Prop := rest = [] ∨ ['\n'] <+: rest ∨ ['*', '/'] <+: rest

/-- A list of names in front of the rest of a text: it stands in one line, and ends at the first place
where a list can. -/
structure UpToEnd (listed rest : List Char) : Prop where
  inLine : '\n' ∉ listed
  ends : Ends rest
  shortest : ∀ p q, listed = p ++ q → q ≠ [] → ¬ Ends (q ++ rest)

theorem exists_untilClose_append (cs : List Char) :
    ∃ rest, cs = untilClose cs ++ rest ∧ UpToEnd (untilClose cs) rest := by
  fun_induction untilClose cs with
  | case1 => exact ⟨[], rfl, by simp, .inl rfl, by simp⟩
  | case2 rest => exact ⟨'*' :: '/' :: rest, rfl, by simp, .inr (.inr ⟨rest, rfl⟩), by simp⟩
  | case3 rest => exact ⟨'\n' :: rest, rfl, by simp, .inr (.inl ⟨rest, rfl⟩), by simp⟩
  | case4 c rest hclose hc ih =>
      obtain ⟨left, hleft, hline, hends, hshortest⟩ := ih
      have hnot : ¬ Ends (c :: rest) := by
        rintro (h | h | h)
        · cases h
        · exact hc (List.cons_prefix_cons.mp h).1.symm
        · obtain ⟨rfl, more, rfl⟩ := List.cons_prefix_cons.mp h
          exact hclose more rfl rfl
      refine ⟨left, congrArg (c :: ·) hleft, ?_, hends, fun p q hsplit hq => ?_⟩
      · rw [List.mem_cons, not_or]
        exact ⟨Ne.symm hc, hline⟩
      · rcases List.cons_eq_append_iff.mp hsplit with ⟨-, rfl⟩ | ⟨p, rfl, hrest⟩
        · rw [List.cons_append, ← hleft]
          exact hnot
        · exact hshortest p q hrest hq

theorem untilClose_eq_iff {cs listed : List Char} :
    untilClose cs = listed ↔ ∃ rest, cs = listed ++ rest ∧ UpToEnd listed rest := by
  obtain ⟨left, hleft, hupTo⟩ := exists_untilClose_append cs
  constructor
  · rintro rfl
    exact ⟨left, hleft, hupTo⟩
  · rintro ⟨rest, hrest, hupTo'⟩
    -- the longer of two lists would have the end of the other one inside
    rcases List.append_eq_append_iff.mp (hleft.symm.trans hrest) with
      ⟨more, hmore, hends⟩ | ⟨more, hmore, hends⟩
    · by_cases hnil : more = []
      · rw [hmore, hnil, List.append_nil]
      · exact absurd (hends ▸ hupTo.ends) (hupTo'.shortest _ more hmore hnil)
    · by_cases hnil : more = []
      · rw [hmore, hnil, List.append_nil]
      · exact absurd (hends ▸ hupTo'.ends) (hupTo.shortest _ more hmore hnil)

theorem dropColon_eq_iff {cs rest : List Char} : dropColon cs = rest ↔
    cs = ':' :: rest ∨ cs = rest ∧ ¬ [':'] <+: rest := by
  unfold dropColon
  split
  · rename_i after
    constructor
    · rintro rfl
      exact .inl rfl
    · rintro (h | ⟨rfl, hcolon⟩)
      · exact (List.cons.inj h).2
      · exact absurd ⟨after, rfl⟩ hcolon
  · rename_i hcolon
    constructor
    · rintro rfl
      refine .inr ⟨rfl, ?_⟩
      rintro ⟨after, rfl⟩
      exact hcolon after rfl
    · rintro (rfl | ⟨rfl, -⟩)
      · exact absurd rfl (hcolon rest)
      · rfl

/-- What the pattern of a directive finds in a text: the first marker, a colon if there is one, and
then as little as it can. -/
inductive Found : List Char → List Char → Prop
  | intro {front colon listed rest : List Char}
      (first : ∀ front' rest', front ++ (marker.toList ++ (colon ++ (listed ++ rest))) =
        front' ++ (marker.toList ++ rest') → front.length ≤ front'.length)
      (greedy : colon = [':'] ∨ colon = [] ∧ ¬ [':'] <+: listed ++ rest)
      (upTo : UpToEnd listed rest) :
      Found (front ++ (marker.toList ++ (colon ++ (listed ++ rest)))) listed

theorem marker_ne_nil : marker.toList ≠ [] := by decide

theorem found_iff {cs listed : List Char} : Found cs listed ↔
    ∃ after, afterFirst? marker.toList cs = some after ∧ untilClose (dropColon after) = listed := by
  simp only [afterFirst?_eq_some_iff marker_ne_nil, untilClose_eq_iff]
  constructor
  · rintro ⟨hfirst, hgreedy, hupTo⟩
    refine ⟨_, ⟨_, rfl, hfirst⟩, _, ?_, hupTo⟩
    rw [dropColon_eq_iff]
    rcases hgreedy with rfl | ⟨rfl, hcolon⟩
    · exact .inl rfl
    · exact .inr ⟨rfl, hcolon⟩
  · rintro ⟨after, ⟨front, rfl, hfirst⟩, rest, hafter, hupTo⟩
    rcases dropColon_eq_iff.mp hafter with rfl | ⟨rfl, hcolon⟩
    · exact @Found.intro front [':'] listed rest hfirst (.inl rfl) hupTo
    · exact @Found.intro front [] listed rest hfirst (.inr ⟨rfl, hcolon⟩) hupTo

/-! ### Comments line by line -/

/-- The lines of a comment. -/
def lines (comment : String) : List String := (splitChars '\n' comment.toList).map String.ofList

/-- A text with a directive. -/
def Marked (text : String) : Prop := marker.toList <:+: text.toList

instance (text : String) : Decidable (Marked text) :=
  inferInstanceAs (Decidable (marker.toList <:+: text.toList))

theorem lines_cases (comment : String) : lines comment = [comment] ∨
    ∃ line rest, comment = line ++ "\n" ++ rest ∧ lines comment = line :: lines rest := by
  by_cases hbreak : '\n' ∈ comment.toList
  · obtain ⟨front, back, hsplit, hfront⟩ := List.eq_append_cons_of_mem hbreak
    refine .inr ⟨String.ofList front, String.ofList back, ?_, ?_⟩
    · rw [← String.toList_inj, hsplit]
      simp
    · rw [lines, hsplit, Text.splitChars_append_cons hfront, List.map_cons, lines, String.toList_ofList]
  · left
    rw [lines, (Text.splitChars_eq_iff '\n' _ (List.cons_ne_nil _ [])).mpr
      ⟨by simpa using hbreak, List.intercalate_singleton⟩]
    simp

theorem ignoredBy_of_unmarked {text : String} (h : ¬ Marked text) : ignoredBy text = [] := by
  rw [ignoredBy, (afterFirst?_eq_none_iff marker_ne_nil).mpr h]

theorem ignoredBy_of_found {text : String} {listed : List Char} (h : Found text.toList listed) :
    ignoredBy text = commaList listed := by
  obtain ⟨after, hafter, rfl⟩ := found_iff.mp h
  rw [ignoredBy, hafter]

theorem Marked.exists_found {text : String} (h : Marked text) :
    ∃ listed, Found text.toList listed := by
  cases hafter : afterFirst? marker.toList text.toList with
  | none => exact absurd h ((afterFirst?_eq_none_iff marker_ne_nil).mp hafter)
  | some after => exact ⟨_, found_iff.mpr ⟨after, hafter, rfl⟩⟩

theorem dropColon_append (cs rest : List Char) :
    dropColon (cs ++ '\n' :: rest) = dropColon cs ++ '\n' :: rest := by
  cases cs with
  | nil => rfl
  | cons c cs =>
      rw [dropColon_eq_iff]
      rcases dropColon_eq_iff.mp (rfl : dropColon (c :: cs) = _) with h | ⟨h, hcolon⟩
      · exact .inl (by rw [h]; rfl)
      · refine .inr ⟨by rw [← h], fun hprefix => hcolon ?_⟩
        rwa [← prefix_before_break_iff (by decide) _ rest]

theorem untilClose_append (cs rest : List Char) :
    untilClose (cs ++ '\n' :: rest) = untilClose cs := by
  fun_induction untilClose cs with
  | case1 => rfl
  | case2 more => rfl
  | case3 more => rfl
  | case4 c more hclose hc ih =>
      rw [List.cons_append, untilClose.eq_3 c _ ?_, if_neg hc, ih]
      rintro after rfl hmore
      cases more with
      | nil => cases hmore
      | cons d more =>
          obtain ⟨rfl, -⟩ := List.cons.inj hmore
          exact hclose more rfl rfl

/-- What a comment lists is decided in its first line, if that has a directive, and otherwise in the
rest. -/
theorem ignoredBy_append (line rest : String) : ignoredBy (line ++ "\n" ++ rest) =
    if Marked line then ignoredBy line else ignoredBy rest := by
  have htext : (line ++ "\n" ++ rest).toList = line.toList ++ '\n' :: rest.toList := by simp
  rw [ignoredBy, htext, afterFirst?_append marker_ne_nil (by decide)]
  split_ifs with hmarked
  · obtain ⟨listed, hfound⟩ := hmarked.exists_found
    obtain ⟨after, hafter, rfl⟩ := found_iff.mp hfound
    rw [ignoredBy_of_found hfound, hafter]
    simp only [dropColon_append, untilClose_append]
  · rw [(afterFirst?_eq_none_iff marker_ne_nil).mpr hmarked]
    rfl

theorem ignoredBy_of_lines {earlier later : List String} {line comment : String}
    (hlines : lines comment = earlier ++ line :: later) (hearlier : ∀ l ∈ earlier, ¬ Marked l)
    (hmarked : Marked line) : ignoredBy comment = ignoredBy line := by
  induction earlier generalizing comment with
  | nil =>
      rcases lines_cases comment with hone | ⟨first, rest, rfl, hmore⟩
      · obtain ⟨rfl, -⟩ := List.cons.inj (hone.symm.trans hlines)
        rfl
      · obtain ⟨rfl, -⟩ := List.cons.inj (hmore.symm.trans hlines)
        rw [ignoredBy_append, if_pos hmarked]
  | cons first earlier ih =>
      obtain ⟨hfirst, hothers⟩ := List.forall_mem_cons.mp hearlier
      rcases lines_cases comment with hone | ⟨first', rest, rfl, hmore⟩
      · have hnil := (List.cons.inj (hone.symm.trans hlines)).2
        simp at hnil
      · obtain ⟨rfl, hrest⟩ := List.cons.inj (hmore.symm.trans hlines)
        rw [ignoredBy_append, if_neg hfirst]
        exact ih hrest hothers

/-- Either no line has a directive, or one is the first that has. -/
theorem first_marked_cases (ls : List String) : (∀ l ∈ ls, ¬ Marked l) ∨
    ∃ earlier line later, ls = earlier ++ line :: later ∧ (∀ l ∈ earlier, ¬ Marked l) ∧
      Marked line := by
  induction ls with
  | nil => exact .inl (List.forall_mem_nil _)
  | cons l ls ih =>
      by_cases hmarked : Marked l
      · exact .inr ⟨[], l, ls, rfl, List.forall_mem_nil _, hmarked⟩
      · rcases ih with hnone | ⟨earlier, line, later, rfl, hearlier, hline⟩
        · exact .inl (List.forall_mem_cons.mpr ⟨hmarked, hnone⟩)
        · exact .inr ⟨l :: earlier, line, later, rfl,
            List.forall_mem_cons.mpr ⟨hmarked, hearlier⟩, hline⟩

theorem ignoredBy_of_lines_unmarked {comment : String} (h : ∀ l ∈ lines comment, ¬ Marked l) :
    ignoredBy comment = [] := by
  induction hlines : lines comment generalizing comment with
  | nil =>
      rcases lines_cases comment with hone | ⟨line, rest, -, hmore⟩
      · cases hone.symm.trans hlines
      · cases hmore.symm.trans hlines
  | cons l ls ih =>
      rcases lines_cases comment with hone | ⟨line, rest, rfl, hmore⟩
      · exact ignoredBy_of_unmarked (h comment (hone ▸ List.mem_cons_self))
      · rw [hmore, List.forall_mem_cons] at h
        rw [ignoredBy_append, if_neg h.1]
        exact ih h.2 (List.cons.inj (hmore.symm.trans hlines)).2

/-- No line of a comment after the first one with a directive lists a name. -/
def ListsOnce (comment : String) : Prop :=
  ∀ earlier line later, lines comment = earlier ++ line :: later → (∀ l ∈ earlier, ¬ Marked l) →
    Marked line → ∀ l ∈ later, ignoredBy l = []

/-- What the lines of a comment list one by one: first what the comment lists. -/
theorem flatMap_of_lines {earlier later : List String} {line comment : String}
    (hlines : lines comment = earlier ++ line :: later) (hearlier : ∀ l ∈ earlier, ¬ Marked l)
    (hmarked : Marked line) :
    (lines comment).flatMap ignoredBy = ignoredBy comment ++ later.flatMap ignoredBy := by
  have hnone : earlier.flatMap ignoredBy = [] := List.flatMap_eq_nil_iff.mpr fun l hl =>
    ignoredBy_of_unmarked (hearlier l hl)
  rw [ignoredBy_of_lines hlines hearlier hmarked, hlines, List.flatMap_append, hnone,
    List.nil_append, List.flatMap_cons]

theorem ignoredBy_prefix (comment : String) :
    ignoredBy comment <+: (lines comment).flatMap ignoredBy := by
  rcases first_marked_cases (lines comment) with hnone | ⟨earlier, line, later, hlines, hearlier, hmarked⟩
  · rw [ignoredBy_of_lines_unmarked hnone]
    exact List.nil_prefix
  · rw [flatMap_of_lines hlines hearlier hmarked]
    exact List.prefix_append _ _

theorem flatMap_lines_eq_iff (comment : String) :
    (lines comment).flatMap ignoredBy = ignoredBy comment ↔ ListsOnce comment := by
  constructor
  · intro hsame earlier line later hlines hearlier hmarked
    rw [flatMap_of_lines hlines hearlier hmarked, List.append_right_eq_self,
      List.flatMap_eq_nil_iff] at hsame
    exact hsame
  · intro honce
    rcases first_marked_cases (lines comment) with hnone | ⟨earlier, line, later, hlines, hearlier, hmarked⟩
    · rw [ignoredBy_of_lines_unmarked hnone, List.flatMap_eq_nil_iff]
      exact fun l hl => ignoredBy_of_unmarked (hnone l hl)
    · rw [flatMap_of_lines hlines hearlier hmarked, List.append_right_eq_self,
        List.flatMap_eq_nil_iff]
      exact honce earlier line later hlines hearlier hmarked

/-- Lists that begin with other lists are the same in a row only if each is. -/
theorem flatMap_eq_iff_of_prefix {α β : Type} {f g : α → List β} (h : ∀ a, f a <+: g a)
    (as : List α) : as.flatMap g = as.flatMap f ↔ ∀ a ∈ as, g a = f a := by
  have hlength : ∀ as : List α, (as.flatMap f).length ≤ (as.flatMap g).length := by
    intro as
    induction as with
    | nil => exact Nat.le_refl _
    | cons a as ih =>
        simp only [List.flatMap_cons, List.length_append]
        exact Nat.add_le_add (h a).length_le ih
  induction as with
  | nil => simp
  | cons a as ih =>
      obtain ⟨more, hmore⟩ := h a
      have hrest := hlength as
      refine Iff.trans ?_ (List.forall_mem_cons.trans (and_congr_right' ih.symm)).symm
      rw [List.flatMap_cons, List.flatMap_cons, ← hmore, List.append_assoc, List.append_right_inj,
        List.append_right_eq_self]
      constructor
      · intro hsame
        have hnil : more = [] := by
          have hsize := congrArg List.length hsame
          rw [List.length_append] at hsize
          exact List.length_eq_zero_iff.mp (by omega)
        exact ⟨hnil, by rwa [hnil, List.nil_append] at hsame⟩
      · rintro ⟨rfl, hsame⟩
        rwa [List.nil_append]

/-- Cutting comments into their lines leaves the same names exactly if no comment lists names in a
line after its first one with a directive. That one counts wherever it stands, with all that it lists
up to the end of the line or of the block comment. -/
theorem ignoredTypes_lines_iff (comments : List String) :
    (ignoredTypes (comments.flatMap lines) = ignoredTypes comments ↔
      ∀ comment ∈ comments, ListsOnce comment) ∧
    ∀ comment,
      (∀ l ∈ lines comment, ¬ Marked l) ∧ ignoredBy comment = [] ∨
      ∃ earlier line later listed, lines comment = earlier ++ line :: later ∧
        (∀ l ∈ earlier, ¬ Marked l) ∧ Found line.toList listed ∧
        ignoredBy comment = commaList listed := by
  constructor
  · rw [ignoredTypes, ignoredTypes, List.flatMap_assoc, flatMap_eq_iff_of_prefix ignoredBy_prefix]
    exact forall₂_congr fun comment _ => flatMap_lines_eq_iff comment
  · intro comment
    rcases first_marked_cases (lines comment) with hnone | ⟨earlier, line, later, hlines, hearlier, hmarked⟩
    · exact .inl ⟨hnone, ignoredBy_of_lines_unmarked hnone⟩
    · obtain ⟨listed, hfound⟩ := hmarked.exists_found
      refine .inr ⟨earlier, line, later, listed, hlines, hearlier, hfound, ?_⟩
      rw [ignoredBy_of_lines hlines hearlier hmarked, ignoredBy_of_found hfound]

/-- The second of two directives in a block comment is passed over. -/
theorem second_directive_passed_over :
    ignoredTypes (["/*\n@typescript-ignore Foo\n@typescript-ignore Bar\n*/"].flatMap lines) ≠
      ignoredTypes ["/*\n@typescript-ignore Foo\n@typescript-ignore Bar\n*/"] ∧
    ignoredTypes (["/*\n@typescript-ignore Foo\n@typescript-ignore Bar\n*/"].flatMap lines) =
      ["Foo", "Bar"] ∧
    ignoredTypes ["/*\n@typescript-ignore Foo\n@typescript-ignore Bar\n*/"] = ["Foo"] := by
  decide +kernel

end TypeBridge.Directive
