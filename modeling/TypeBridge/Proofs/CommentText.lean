import Mathlib.Data.List.Chain
import Mathlib.Data.List.TakeWhile
import TypeBridge.Declaration.Printer
import TypeBridge.Proofs.TypeReader

/-!
Texts with comments. A text is read from left to right as characters and comments: two slashes start a
comment up to the end of the line, a slash and a star one up to the next star and slash. Where the
comments end does not depend on what comes after a text, as long as the last character of the text and
the first one after it do not make a marker. So the comments that the printer writes before and after
their owners can be read one by one; what is left of them is layout.
-/

namespace TypeBridge.Commented

open Reading (isLayout)

/-! ### Reading comments -/

/-- The characters that end a line. -/
def endsLine (c : Char) : Bool := c == '\n' || c == '\r' || c == '\u2028' || c == '\u2029'

/-- A text without the end of a line. -/
def OneLine (cs : List Char) : Prop := ∀ c ∈ cs, endsLine c = false

instance (cs : List Char) : Decidable (OneLine cs) :=
  decidable_of_iff (cs.any endsLine = false) (by simp [OneLine])

/-- A piece of a text: a character outside of comments, or a comment by what stands in it. -/
inductive Piece where
  | code (c : Char)
  | comment (body : List Char)
deriving DecidableEq

def Piece.char? : Piece → Option Char
  | code c => some c
  | comment _ => none

def Piece.body? : Piece → Option (List Char)
  | code _ => none
  | comment body => some body

/-- What stands in a block comment, and what comes after its end. Without an end it takes the rest of
the text. -/
def readBlock : List Char → List Char × List Char
  | '*' :: '/' :: rest => ([], rest)
  | c :: rest => (c :: (readBlock rest).1, (readBlock rest).2)
  | [] => ([], [])

theorem length_readBlock_le (cs : List Char) : (readBlock cs).2.length ≤ cs.length := by
  fun_induction readBlock cs with
  | case1 => simp only [List.length_cons]; omega
  | case2 c rest _ ih => exact Nat.le_succ_of_le ih
  | case3 => exact Nat.le_refl 0

/-- The pieces of a text, read from left to right. -/
def pieces : List Char → List Piece
  | '/' :: '/' :: rest =>
      .comment (rest.takeWhile fun c => !endsLine c) :: pieces (rest.dropWhile fun c => !endsLine c)
  | '/' :: '*' :: rest => .comment (readBlock rest).1 :: pieces (readBlock rest).2
  | c :: rest => .code c :: pieces rest
  | [] => []
termination_by cs => cs.length
decreasing_by
  · have : (rest.dropWhile fun c => !endsLine c).length ≤ rest.length :=
      (List.dropWhile_sublist fun c => !endsLine c).length_le
    simp only [List.length_cons]
    omega
  · have := length_readBlock_le rest
    simp only [List.length_cons]
    omega
  · exact Nat.lt_succ_self _

/-- The characters that are left when the comments are taken out. -/
def code (ps : List Piece) : List Char := ps.filterMap Piece.char?

/-- What stands in the comments. -/
def bodies (ps : List Piece) : List (List Char) := ps.filterMap Piece.body?

@[simp] theorem code_nil : code [] = [] := rfl

@[simp] theorem code_code (c : Char) (ps : List Piece) : code (.code c :: ps) = c :: code ps := rfl

@[simp] theorem code_comment (body : List Char) (ps : List Piece) :
    code (.comment body :: ps) = code ps := rfl

@[simp] theorem code_append (ps ps' : List Piece) : code (ps ++ ps') = code ps ++ code ps' :=
  List.filterMap_append

@[simp] theorem code_map_code (cs : List Char) : code (cs.map Piece.code) = cs := by
  simp [code, List.filterMap_map, Function.comp_def, Piece.char?]

/-- A text that makes no marker with what stands in front of it. -/
def Apart (cs : List Char) : Prop := cs.head? ≠ some '/' ∧ cs.head? ≠ some '*'

instance (cs : List Char) : Decidable (Apart cs) := inferInstanceAs (Decidable (_ ∧ _))

theorem Apart.append {cs : List Char} (h : Apart cs) (hne : cs ≠ []) (rest : List Char) :
    Apart (cs ++ rest) := by
  rw [Apart, List.head?_append_of_ne_nil _ hne]
  exact h

theorem pieces_cons {c : Char} {rest : List Char} (h : c = '/' → Apart rest) :
    pieces (c :: rest) = .code c :: pieces rest := by
  refine pieces.eq_3 c rest (fun _ hc hrest => ?_) (fun _ hc hrest => ?_)
  · exact (h hc).1 (by rw [hrest]; rfl)
  · exact (h hc).2 (by rw [hrest]; rfl)

/-- A text without the two characters one right after the other. -/
def Without (a b : Char) (cs : List Char) : Prop := ¬ [a, b] <:+: cs

instance (a b : Char) (cs : List Char) : Decidable (Without a b cs) :=
  inferInstanceAs (Decidable (¬ _))

theorem without_iff {a b : Char} {cs : List Char} :
    Without a b cs ↔ cs.IsChain fun c d => c = a → d ≠ b := by
  rw [Without, List.isChain_iff_forall_rel_of_append_cons_cons]
  constructor
  · rintro h c d front back rfl rfl rfl
    exact h ⟨front, back, by simp⟩
  · rintro h ⟨front, back, rfl⟩
    exact @h a b front back (by simp) rfl rfl

/-- A text in which no comment starts. -/
def Unmarked (cs : List Char) : Prop := Without '/' '/' cs ∧ Without '/' '*' cs

instance (cs : List Char) : Decidable (Unmarked cs) := inferInstanceAs (Decidable (_ ∧ _))

theorem unmarked_iff {cs : List Char} :
    Unmarked cs ↔ cs.IsChain fun c d => c = '/' → Apart [d] := by
  simp only [Unmarked, without_iff, List.isChain_iff_forall_rel_of_append_cons_cons, Apart,
    List.head?_cons, ne_eq, Option.some_inj]
  grind

theorem pieces_of_unmarked {cs rest : List Char} (h : Unmarked cs) (hrest : Apart rest) :
    pieces (cs ++ rest) = cs.map Piece.code ++ pieces rest := by
  rw [unmarked_iff] at h
  induction cs with
  | nil => rfl
  | cons c cs ih =>
      rw [List.cons_append, pieces_cons, ih h.tail, List.map_cons, List.cons_append]
      intro hc
      cases cs with
      | nil => exact hrest
      | cons d cs => exact ((List.isChain_cons_cons.mp h).1 hc).append (List.cons_ne_nil _ _) _

/-- A text of one kind of characters. -/
def AllOf (kind : Char → Bool) (cs : List Char) : Prop := ∀ c ∈ cs, kind c = true

instance (kind : Char → Bool) (cs : List Char) : Decidable (AllOf kind cs) :=
  decidable_of_iff (cs.all kind = true) List.all_eq_true

theorem AllOf.append {kind : Char → Bool} {cs cs' : List Char} (h : AllOf kind cs)
    (h' : AllOf kind cs') : AllOf kind (cs ++ cs') := List.forall_mem_append.mpr ⟨h, h'⟩

/-- Characters that are no part of a marker. -/
def isPlain (c : Char) : Bool := c != '/' && c != '*'

/-! ### Words -/

/-- The words of a text: what stands between its layout. -/
def words (cs : List Char) : List (List Char) := (cs.splitOnP isLayout).filter fun word => !word.isEmpty

theorem words_append_cons {c : Char} (h : isLayout c = true) (front back : List Char) :
    words (front ++ c :: back) = words front ++ words back := by
  rw [words, List.splitOnP_append_cons front back h, List.filter_append]
  rfl

theorem words_nil : words [] = [] := by
  simp [words]

theorem words_layout {cs : List Char} (h : AllOf isLayout cs) (rest : List Char) :
    words (cs ++ rest) = words rest := by
  induction cs with
  | nil => rfl
  | cons c cs ih =>
      obtain ⟨hc, hcs⟩ := List.forall_mem_cons.mp h
      have hfront := words_append_cons hc [] (cs ++ rest)
      rw [words_nil] at hfront
      exact hfront.trans (ih hcs)

/-- Layout at the end of a text is no part of its words. -/
theorem words_append_layout {cs : List Char} (h : AllOf isLayout cs) (front : List Char) :
    words (front ++ cs) = words front := by
  cases cs with
  | nil => rw [List.append_nil]
  | cons c cs =>
      obtain ⟨hc, hcs⟩ := List.forall_mem_cons.mp h
      rw [words_append_cons hc, ← List.append_nil cs, words_layout hcs, words_nil, List.append_nil]

/-! ### Texts of which only layout is left -/

variable {cs cs' : List Char}

/-- Nothing comes after a text, or a line ends there. -/
def AtLineEnd (rest : List Char) : Prop := ∀ c, rest.head? = some c → endsLine c = true

/-- A text of comments and layout, in front of some texts. -/
def SilentBefore (Rest : List Char → Prop) (cs : List Char) : Prop :=
  ∃ ps, AllOf isLayout (code ps) ∧ ∀ rest, Rest rest → pieces (cs ++ rest) = ps ++ pieces rest

/-- A text of comments and layout, whatever comes after it. -/
def Silent (cs : List Char) : Prop := SilentBefore (fun _ => True) cs

/-- A text of comments and layout, if the line ends after it. -/
def SilentToEnd (cs : List Char) : Prop := SilentBefore AtLineEnd cs

theorem Silent.toEnd (h : Silent cs) : SilentToEnd cs := by
  obtain ⟨ps, hlayout, hread⟩ := h
  exact ⟨ps, hlayout, fun rest _ => hread rest trivial⟩

theorem Silent.nil : Silent [] := ⟨[], nofun, fun _ _ => rfl⟩

theorem Silent.append_before {Rest : List Char → Prop} (h : Silent cs) (h' : SilentBefore Rest cs') :
    SilentBefore Rest (cs ++ cs') := by
  obtain ⟨ps, hlayout, hread⟩ := h
  obtain ⟨ps', hlayout', hread'⟩ := h'
  refine ⟨ps ++ ps', ?_, fun rest hrest => ?_⟩
  · rw [code_append]
    exact hlayout.append hlayout'
  · rw [List.append_assoc, hread _ trivial, hread' rest hrest, List.append_assoc]

theorem Silent.append (h : Silent cs) (h' : Silent cs') : Silent (cs ++ cs') := h.append_before h'

theorem Silent.append_toEnd (h : Silent cs) (h' : SilentToEnd cs') : SilentToEnd (cs ++ cs') :=
  h.append_before h'

theorem isPlain_of_isLayout {c : Char} (h : isLayout c = true) : isPlain c = true := by
  simp only [isLayout, Bool.or_eq_true, beq_iff_eq] at h
  rcases h with ((rfl | rfl) | rfl) | rfl <;> rfl

theorem pieces_of_plain (h : AllOf isPlain cs) (rest : List Char) :
    pieces (cs ++ rest) = cs.map Piece.code ++ pieces rest := by
  induction cs with
  | nil => rfl
  | cons c cs ih =>
      obtain ⟨hc, hcs⟩ := List.forall_mem_cons.mp h
      have hne : c ≠ '/' := by
        rintro rfl
        cases hc
      rw [List.cons_append, pieces_cons fun h => absurd h hne, ih hcs, List.map_cons, List.cons_append]

theorem silent_layout (h : AllOf isLayout cs) : Silent cs :=
  ⟨cs.map Piece.code, by rwa [code_map_code],
    fun rest _ => pieces_of_plain (fun c hc => isPlain_of_isLayout (h c hc)) rest⟩

theorem readBlock_cons {c : Char} {rest : List Char} (h : c = '*' → rest.head? ≠ some '/') :
    readBlock (c :: rest) = (c :: (readBlock rest).1, (readBlock rest).2) :=
  readBlock.eq_2 c rest fun _ hc hrest => h hc (by rw [hrest]; rfl)

/-- A block comment ends at the first end marker. -/
theorem readBlock_append {body : List Char} (h : Without '*' '/' body) (rest : List Char) :
    readBlock (body ++ '*' :: '/' :: rest) = (body, rest) := by
  rw [without_iff] at h
  induction body with
  | nil => exact readBlock.eq_1 rest
  | cons c body ih =>
      rw [List.cons_append, readBlock_cons, ih h.tail]
      intro hc
      -- a star at the end of the body stands in front of the star of the marker
      cases body with
      | nil => exact fun h => nomatch h
      | cons d body => exact fun hd => (List.isChain_cons_cons.mp h).1 hc (Option.some.inj hd)

theorem pieces_block {body : List Char} (h : Without '*' '/' body) (rest : List Char) :
    pieces ('/' :: '*' :: (body ++ '*' :: '/' :: rest)) = .comment body :: pieces rest := by
  rw [pieces, readBlock_append h]

theorem AtLineEnd.takeWhile_append {rest : List Char} (h : AtLineEnd rest) (cs : List Char) :
    (cs ++ rest).takeWhile (fun c => !endsLine c) = cs.takeWhile fun c => !endsLine c := by
  induction cs with
  | nil =>
      cases rest with
      | nil => rfl
      | cons c rest => exact List.takeWhile_cons_of_neg (by rw [h c rfl]; decide)
  | cons c cs ih => rw [List.cons_append, List.takeWhile_cons, List.takeWhile_cons, ih]

theorem pieces_line {body rest : List Char} (h : OneLine body)
    (hrest : AtLineEnd rest) :
    pieces ('/' :: '/' :: (body ++ rest)) = .comment body :: pieces rest := by
  have hinside : ∀ c ∈ body, (!endsLine c) = true := fun c hc => by rw [h c hc]; rfl
  have hbody : (body ++ rest).takeWhile (fun c => !endsLine c) = body := by
    rw [hrest.takeWhile_append, List.takeWhile_eq_self_iff.mpr hinside]
  have hsplit := List.takeWhile_append_dropWhile (p := fun c => !endsLine c) (l := body ++ rest)
  rw [hbody, List.append_cancel_left_eq] at hsplit
  rw [pieces, hbody, hsplit]

theorem pieces_layout_cons {c : Char} (h : isLayout c = true) (rest : List Char) :
    pieces (c :: rest) = .code c :: pieces rest := by
  refine pieces_cons ?_
  rintro rfl
  cases h

theorem atLineEnd_newline (rest : List Char) : AtLineEnd ('\n' :: rest) := by
  intro c hc
  cases hc
  rfl

theorem silent_block {body : List Char} (h : Without '*' '/' body) :
    Silent ('/' :: '*' :: (body ++ ['*', '/'])) := by
  refine ⟨[.comment body], nofun, fun rest _ => ?_⟩
  have hread := pieces_block h rest
  simpa using hread

theorem silentToEnd_line {body : List Char} (h : OneLine body) :
    SilentToEnd ('/' :: '/' :: body) :=
  ⟨[.comment body], nofun, fun _ hrest => pieces_line h hrest⟩

/-- The end of the line in front of which a text is layout. -/
theorem SilentToEnd.append_newline (h : SilentToEnd cs) : Silent (cs ++ ['\n']) := by
  obtain ⟨ps, hlayout, hread⟩ := h
  refine ⟨ps ++ [.code '\n'], ?_, fun rest _ => ?_⟩
  · rw [code_append]
    exact hlayout.append (by decide)
  · rw [List.append_assoc, List.singleton_append, hread _ (atLineEnd_newline rest), pieces_layout_cons rfl,
      List.append_assoc, List.singleton_append]

end TypeBridge.Commented

namespace TypeBridge

open Commented
open Reading (isLayout)

namespace Comment

/-- A comment whose text does not end it before its own end. -/
def WellFormed (c : Comment) : Prop :=
  if c.singleLine then OneLine c.text.toList else Without '*' '/' c.text.toList

instance (c : Comment) : Decidable c.WellFormed :=
  inferInstanceAs (Decidable (if c.singleLine then _ else _))

/-- No comment of several lines stands on a line behind a comment that takes the rest of the line. -/
def Sheltered (comments : List Comment) : Prop :=
  (comments.filter fun c => !c.leading).Pairwise fun c c' => c.singleLine = true → OneLine c'.text.toList

instance (comments : List Comment) : Decidable (Sheltered comments) :=
  inferInstanceAs (Decidable (List.Pairwise _ _))

variable {c : Comment} {comments : List Comment} {pad : String}

theorem toList_body (c : Comment) : c.body.toList =
    if c.singleLine then '/' :: '/' :: c.text.toList
    else '/' :: '*' :: (c.text.toList ++ ['*', '/']) := by
  unfold body
  split <;> simp

theorem WellFormed.silentToEnd_body (h : c.WellFormed) : SilentToEnd c.body.toList := by
  rw [toList_body]
  unfold WellFormed at h
  split at h
  · rename_i hsingle
    rw [if_pos hsingle]
    exact silentToEnd_line h
  · rename_i hblock
    rw [if_neg hblock]
    exact (silent_block h).toEnd

theorem silent_beforeText (h : c.WellFormed) (hpad : AllOf isLayout pad.toList) :
    Silent (c.beforeText pad).toList := by
  rw [beforeText, String.toList_append, String.toList_append, List.append_assoc]
  refine (silent_layout hpad).append ?_
  by_cases hnewline : (c.trailingNewline || c.singleLine) = true
  · rw [if_pos hnewline]
    exact h.silentToEnd_body.append_newline
  · -- a comment without a line break after it is a block
    rw [if_neg hnewline]
    simp only [Bool.or_eq_true, not_or, Bool.not_eq_true] at hnewline
    unfold WellFormed at h
    rw [hnewline.2] at h
    rw [toList_body, hnewline.2]
    exact (silent_block h).append (silent_layout (by decide))

/-- Comments before their owner leave layout. -/
theorem silent_leadingText (h : ∀ c ∈ comments, c.WellFormed)
    (hpad : AllOf isLayout pad.toList) : Silent (leadingText pad comments).toList := by
  rw [leadingText, String.toList_join, List.flatMap_map]
  have hfilter : ∀ c ∈ comments.filter leading, c.WellFormed := fun c hc => h c (List.mem_filter.mp hc).1
  generalize comments.filter leading = listed at hfilter ⊢
  induction listed with
  | nil => exact .nil
  | cons c listed ih =>
      obtain ⟨hc, hcs⟩ := List.forall_mem_cons.mp hfilter
      exact (silent_beforeText hc hpad).append (ih hcs)

theorem oneLine_body (h : OneLine c.text.toList) : OneLine c.body.toList := by
  have hend : OneLine ['*', '/'] := by decide
  rw [toList_body]
  split
  · exact List.forall_mem_cons.mpr ⟨rfl, List.forall_mem_cons.mpr ⟨rfl, h⟩⟩
  · exact List.forall_mem_cons.mpr ⟨rfl, List.forall_mem_cons.mpr ⟨rfl,
      List.forall_mem_append.mpr ⟨h, hend⟩⟩⟩

/-- Comments after their owner leave layout, unless one of several lines stands behind one that takes
the rest of the line. -/
theorem silentToEnd_trailingText (h : ∀ c ∈ comments, c.WellFormed) (hsheltered : Sheltered comments) :
    SilentToEnd (trailingText comments).toList := by
  rw [trailingText, String.toList_join, List.flatMap_map]
  have hfilter : ∀ c ∈ comments.filter fun c => !c.leading, c.WellFormed := fun c hc =>
    h c (List.mem_filter.mp hc).1
  unfold Sheltered at hsheltered
  generalize (comments.filter fun c => !c.leading) = listed at hfilter hsheltered ⊢
  induction listed with
  | nil => exact Silent.nil.toEnd
  | cons c listed ih =>
      obtain ⟨hc, hcs⟩ := List.forall_mem_cons.mp hfilter
      obtain ⟨hfirst, hlater⟩ := List.pairwise_cons.mp hsheltered
      rw [List.flatMap_cons, String.toList_append, List.append_assoc]
      refine (silent_layout (by decide)).append_toEnd ?_
      unfold WellFormed at hc
      rw [toList_body]
      split at hc
      · -- everything up to the end of the line is part of this comment
        rename_i hsingle
        rw [if_pos hsingle]
        refine silentToEnd_line (List.forall_mem_append.mpr ⟨hc, ?_⟩)
        intro ch hch
        obtain ⟨c', hc', hmem⟩ := List.mem_flatMap.mp hch
        rw [String.toList_append, List.mem_append] at hmem
        rcases hmem with hspace | hbody
        · obtain rfl : ch = ' ' := by simpa using hspace
          rfl
        · exact oneLine_body (hfirst c' hc' hsingle) ch hbody
      · rename_i hblock
        rw [if_neg hblock]
        exact (silent_block hc).append_toEnd (ih hcs hlater)

/-- Comments after their owner are set off by a space. -/
theorem trailingText_starts (comments : List Comment) :
    (trailingText comments).toList = [] ∨ ∃ cs, (trailingText comments).toList = ' ' :: cs := by
  rw [trailingText, String.toList_join, List.flatMap_map]
  cases comments.filter fun c => !c.leading with
  | nil => exact .inl rfl
  | cons c listed =>
      rw [List.flatMap_cons, String.toList_append]
      exact .inr ⟨_, rfl⟩

/-- The comments after an owner make no marker with its last character. -/
theorem apart_trailingText (comments : List Comment) : Apart (trailingText comments).toList := by
  rcases trailingText_starts comments with hempty | ⟨cs, hspace⟩
  · rw [hempty]
    exact ⟨nofun, nofun⟩
  · rw [hspace]
    exact ⟨nofun, nofun⟩

end Comment

end TypeBridge
