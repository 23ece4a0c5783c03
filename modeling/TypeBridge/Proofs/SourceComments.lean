import TypeBridge.Declare
import TypeBridge.Proofs.CommentText

/-!
Comments of the source in the generated code. A comment is taken over without its markers and printed
with markers of its own: as a comment up to the end of the line, unless it has a line break in it. The
markers are looked for at both ends, whatever kind of comment the source has, so that what looks like a
marker is lost from a comment up to the end of the line; and a block that has one of the rarer line ends
in it does not keep together. All other comments keep their text. The comments of a declaration are all
taken over, each in its place before or behind it.
-/

namespace TypeBridge

open Commented
open Reading (isLayout)

/-- A comment of the source: up to the end of its line, or between two markers. -/
inductive SourceComment where
  | line (body : List Char) (oneLine : OneLine body)
  | block (body : List Char) (noEnd : Without '*' '/' body)

namespace SourceComment

/-- What stands between the markers. -/
def body : SourceComment → List Char
  | line body _ => body
  | block body _ => body

/-- The comment as it stands in the source. -/
def raw : SourceComment → String
  | line body _ => String.ofList ('/' :: '/' :: body)
  | block body _ => String.ofList ('/' :: '*' :: (body ++ ['*', '/']))

/-- Nothing at the ends of a comment up to the end of the line looks like the markers of a block, and a
block that is printed on one line has one line. -/
def Kept : SourceComment → Prop
  | line body _ => ¬ ['/', '*'] <+: body ∧ ¬ ['*', '/'] <:+ body
  | block body _ => '\n' ∈ body ∨ OneLine body

end SourceComment

namespace Comment

variable {c : Comment} {body : List Char}

/-! ### One comment on its own -/

/-- The text of a comment where it stands: on a line before its owner, or behind it. -/
def shown (pad : String) (c : Comment) : String :=
  if c.leading then leadingText pad [c] else trailingText [c]

/-- A comment is printed as one comment with a body and layout around it. A comment before its owner
may be followed by anything, one behind its owner by the end of the line. -/
def ShownAs (c : Comment) (body : List Char) : Prop :=
  ∀ pad : String, AllOf isLayout pad.toList →
    ∀ rest, (c.leading = true ∨ AtLineEnd rest) →
      ∃ ps, bodies ps = [body] ∧ AllOf isLayout (code ps) ∧
        pieces ((c.shown pad).toList ++ rest) = ps ++ pieces rest

theorem toList_shown (pad : String) (c : Comment) : (c.shown pad).toList =
    if c.leading then pad.toList ++ (c.body.toList ++
      [if c.trailingNewline || c.singleLine then '\n' else ' '])
    else ' ' :: c.body.toList := by
  unfold shown
  split
  · rename_i hleading
    rw [leadingText, List.filter_cons_of_pos hleading, List.filter_nil, List.map_singleton,
      String.toList_join, List.flatMap_singleton, beforeText, String.toList_append, String.toList_append,
      List.append_assoc]
    split <;> rfl
  · rename_i htrailing
    rw [trailingText, List.filter_cons_of_pos (by simpa using htrailing), List.filter_nil,
      List.map_singleton, String.toList_join, List.flatMap_singleton, String.toList_append]
    rfl

theorem pieces_body (h : c.WellFormed) {rest : List Char}
    (hrest : c.singleLine = true → AtLineEnd rest) :
    pieces (c.body.toList ++ rest) = .comment c.text.toList :: pieces rest := by
  unfold WellFormed at h
  rw [toList_body]
  split at h
  · rename_i hsingle
    rw [if_pos hsingle]
    exact pieces_line h (hrest hsingle)
  · rename_i hblock
    rw [if_neg hblock]
    simpa using pieces_block h rest

/-- A well-formed comment is printed with its text. -/
theorem WellFormed.shownAs (h : c.WellFormed) : c.ShownAs c.text.toList := by
  intro pad hpad rest hrest
  have hplain : AllOf isPlain pad.toList := fun ch hch => isPlain_of_isLayout (hpad ch hch)
  rw [toList_shown]
  split
  · -- a line break after a comment up to the end of the line, or layout after a block
    generalize hstop : (if c.trailingNewline || c.singleLine then '\n' else ' ') = stop
    have hlayout : isLayout stop = true := by
      subst hstop
      split <;> rfl
    have hend : c.singleLine = true → AtLineEnd (stop :: rest) := by
      intro hsingle ch hch
      cases hch
      simp [← hstop, hsingle, endsLine]
    refine ⟨pad.toList.map Piece.code ++ [.comment c.text.toList, .code stop], ?_, ?_, ?_⟩
    · simp [bodies, List.filterMap_map, Function.comp_def, Piece.body?]
    · rw [code_append, code_map_code]
      exact hpad.append (List.forall_mem_singleton.mpr hlayout)
    · rw [List.append_assoc, List.append_assoc, List.singleton_append, pieces_of_plain hplain,
        pieces_body h hend, pieces_layout_cons hlayout, List.append_assoc]
      rfl
  · rename_i htrailing
    refine ⟨[.code ' ', .comment c.text.toList], rfl, ?_, ?_⟩
    · rw [code_code, code_comment]
      decide
    · rw [List.cons_append, pieces_layout_cons rfl, pieces_body h fun _ => hrest.resolve_left htrailing]
      rfl

/-- The body of a comment that is printed up to the end of the line ends where its first line does. -/
theorem ShownAs.eq_takeWhile (h : c.ShownAs body) (hsingle : c.singleLine = true) :
    body = c.text.toList.takeWhile fun ch => !endsLine ch := by
  obtain ⟨ps, hbodies, -, hread⟩ := h "" nofun [] (.inr nofun)
  have hfirst : ∀ rest, AtLineEnd rest →
      bodies (pieces ('/' :: '/' :: (c.text.toList ++ rest))) = [body] →
        body = c.text.toList.takeWhile fun ch => !endsLine ch := by
    intro rest hrest hall
    rw [pieces, AtLineEnd.takeWhile_append hrest] at hall
    exact (List.cons.inj hall).1.symm
  have hall : bodies (pieces (c.shown "").toList) = [body] := by
    rw [List.append_nil] at hread
    rw [hread, ← hbodies, pieces, List.append_nil]
  rw [toList_shown, toList_body, hsingle, if_pos rfl, Bool.or_true, if_pos rfl] at hall
  split at hall
  · exact hfirst ['\n'] (atLineEnd_newline []) hall
  · rw [pieces_layout_cons rfl] at hall
    exact hfirst [] nofun (by rwa [List.append_nil])

/-- A comment has one body. -/
theorem ShownAs.unique {body' : List Char} (h : c.ShownAs body) (h' : c.ShownAs body') : body = body' := by
  obtain ⟨ps, hbodies, -, hread⟩ := h "" nofun [] (.inr nofun)
  obtain ⟨ps', hbodies', -, hread'⟩ := h' "" nofun [] (.inr nofun)
  obtain rfl : ps = ps' := List.append_cancel_right (hread.symm.trans hread')
  exact (List.cons.inj (hbodies.symm.trans hbodies')).1

theorem WellFormed.shownAs_iff (h : c.WellFormed) : c.ShownAs body ↔ c.text.toList = body := by
  constructor
  · intro hshown
    exact h.shownAs.unique hshown
  · rintro rfl
    exact h.shownAs

/-- A comment up to the end of the line keeps a text of one line, and no other. -/
theorem shownAs_text_iff (hsingle : c.singleLine = true) :
    c.ShownAs c.text.toList ↔ OneLine c.text.toList := by
  constructor
  · intro h ch hch
    simpa using List.takeWhile_eq_self_iff.mp (h.eq_takeWhile hsingle).symm ch hch
  · intro h
    have hwell : c.WellFormed := by rwa [WellFormed, if_pos hsingle]
    exact hwell.shownAs

/-! ### Markers at the ends -/

theorem dropFront_append (marker cs : List Char) : dropFront marker (marker ++ cs) = cs := by
  simp [dropFront]

theorem dropBack_append (marker cs : List Char) : dropBack marker (cs ++ marker) = cs := by
  simp [dropBack]

theorem dropFront_eq_self {marker cs : List Char} (h : ¬ marker <+: cs) :
    dropFront marker cs = cs := by
  simpa [dropFront] using fun hmarker => absurd hmarker h

theorem dropBack_eq_self {marker cs : List Char} (h : ¬ marker <:+ cs) :
    dropBack marker cs = cs := by
  simpa [dropBack] using fun hmarker => absurd hmarker h

theorem dropFront_sublist (marker cs : List Char) : (dropFront marker cs).Sublist cs := by
  unfold dropFront
  split
  · exact List.drop_sublist _ _
  · exact List.Sublist.refl _

theorem dropBack_sublist (marker cs : List Char) : (dropBack marker cs).Sublist cs := by
  unfold dropBack
  split
  · exact List.take_sublist _ _
  · exact List.Sublist.refl _

/-- Only what has the marker at its front loses anything there. -/
theorem dropFront_eq_self_iff {marker cs : List Char} (hne : marker ≠ []) :
    dropFront marker cs = cs ↔ ¬ marker <+: cs := by
  refine ⟨?_, dropFront_eq_self⟩
  rintro h ⟨rest, rfl⟩
  rw [dropFront_append] at h
  have hlength := congrArg List.length h
  rw [List.length_append] at hlength
  exact hne (List.length_eq_zero_iff.mp (by omega))

theorem dropBack_eq_self_iff {marker cs : List Char} (hne : marker ≠ []) :
    dropBack marker cs = cs ↔ ¬ marker <:+ cs := by
  constructor
  · rintro h ⟨rest, rfl⟩
    rw [dropBack_append] at h
    have hlength := congrArg List.length h
    rw [List.length_append] at hlength
    exact hne (List.length_eq_zero_iff.mp (by omega))
  · exact dropBack_eq_self

/-- Of a comment up to the end of the line nothing is lost if neither end looks like a marker. -/
theorem dropBack_dropFront_eq_self_iff {front back cs : List Char} (hfront : front ≠ [])
    (hback : back ≠ []) : dropBack back (dropFront front cs) = cs ↔ ¬ front <+: cs ∧ ¬ back <:+ cs := by
  rw [← dropFront_eq_self_iff hfront, ← dropBack_eq_self_iff hback]
  constructor
  · intro h
    have hself : dropFront front cs = cs := by
      refine (dropFront_sublist front cs).eq_of_length_le ?_
      calc cs.length = (dropBack back (dropFront front cs)).length := by rw [h]
        _ ≤ (dropFront front cs).length := (dropBack_sublist _ _).length_le
    exact ⟨hself, by rwa [hself] at h⟩
  · rintro ⟨hself, h⟩
    rw [hself, h]

/-! ### What is taken over -/

/-- What a text keeps when a marker is taken off its front. -/
inductive FrontOff (marker : List Char) : List Char → List Char → Prop
  | taken (rest : List Char) : FrontOff marker (marker ++ rest) rest
  | absent {cs : List Char} (h : ¬ marker <+: cs) : FrontOff marker cs cs

/-- What a text keeps when a marker is taken off its end. -/
inductive BackOff (marker : List Char) : List Char → List Char → Prop
  | taken (rest : List Char) : BackOff marker (rest ++ marker) rest
  | absent {cs : List Char} (h : ¬ marker <:+ cs) : BackOff marker cs cs

theorem frontOff_iff {marker cs rest : List Char} :
    FrontOff marker cs rest ↔ rest = dropFront marker cs := by
  constructor
  · rintro (_ | habsent)
    · exact (dropFront_append marker rest).symm
    · exact (dropFront_eq_self habsent).symm
  · rintro rfl
    by_cases h : marker <+: cs
    · obtain ⟨rest, rfl⟩ := h
      rw [dropFront_append]
      exact .taken rest
    · rw [dropFront_eq_self h]
      exact .absent h

theorem backOff_iff {marker cs rest : List Char} :
    BackOff marker cs rest ↔ rest = dropBack marker cs := by
  constructor
  · rintro (_ | habsent)
    · exact (dropBack_append marker rest).symm
    · exact (dropBack_eq_self habsent).symm
  · rintro rfl
    by_cases h : marker <:+ cs
    · obtain ⟨rest, rfl⟩ := h
      rw [dropBack_append]
      exact .taken rest
    · rw [dropBack_eq_self h]
      exact .absent h

end Comment

open Comment in
/-- A comment of the generated code is a comment of the source without its markers. First that of a
comment up to the end of the line is taken off, then the two of a block. The comment stands before its
owner unless it stood behind it, and is a block if it has a line break. -/
structure DocComment.TakenOver (doc : DocComment) (c : Comment) : Prop where
  leading : c.leading = true ↔ doc.trailing = false
  singleLine : c.singleLine = true ↔ '\n' ∉ doc.text.toList
  text : ∃ unlined opened, FrontOff ['/', '/'] doc.text.toList unlined ∧
    FrontOff ['/', '*'] unlined opened ∧ BackOff ['*', '/'] opened c.text.toList
  trailingNewline : c.trailingNewline = true

theorem DocComment.takenOver_iff (doc : DocComment) (c : Comment) :
    doc.TakenOver c ↔ c = .ofSource doc.text (!doc.trailing) := by
  constructor
  · rintro ⟨hleading, hsingle, ⟨_, _, hline, hopen, hclose⟩, hnewline⟩
    rw [Comment.frontOff_iff] at hline hopen
    rw [Comment.backOff_iff] at hclose
    subst hline hopen
    have htext : c.text = String.ofList (Comment.stripMarkers doc.text.toList) :=
      String.toList_inj.mp (hclose.trans String.toList_ofList.symm)
    have hplace : c.leading = !doc.trailing := by
      rw [Bool.eq_iff_iff, hleading, Bool.not_eq_true']
    have hform : c.singleLine = !doc.text.toList.contains '\n' := by
      rw [Bool.eq_iff_iff, hsingle, Bool.not_eq_true', ← Bool.not_eq_true, List.contains_iff_mem]
    obtain ⟨leading, singleLine, text, trailingNewline⟩ := c
    rw [Comment.ofSource, ← hplace, ← hform, ← htext]
    exact congrArg _ hnewline
  · rintro rfl
    refine ⟨?_, ?_, ⟨_, _, Comment.frontOff_iff.mpr rfl, Comment.frontOff_iff.mpr rfl,
      Comment.backOff_iff.mpr String.toList_ofList⟩, rfl⟩
    · rw [Comment.ofSource, Bool.not_eq_true']
    · rw [Comment.ofSource, Bool.not_eq_true', ← Bool.not_eq_true, List.contains_iff_mem]

theorem DocComment.TakenOver.text_sublist {doc : DocComment} {c : Comment} (h : doc.TakenOver c) :
    c.text.toList.Sublist doc.text.toList := by
  rw [(DocComment.takenOver_iff doc c).mp h, Comment.ofSource, String.toList_ofList]
  exact (Comment.dropBack_sublist _ _).trans
    ((Comment.dropFront_sublist _ _).trans (Comment.dropFront_sublist _ _))

/-- Lists are related element by element by a function exactly if it takes one to the other. -/
theorem forall₂_iff_eq_map {α β : Type} {R : α → β → Prop} {f : α → β} (h : ∀ a b, R a b ↔ b = f a)
    {as : List α} {bs : List β} : List.Forall₂ R as bs ↔ bs = as.map f := by
  have hrelation : R = fun a b => f a = b := funext₂ fun a b => propext ((h a b).trans eq_comm)
  rw [hrelation, ← List.forall₂_map_left_iff, List.forall₂_eq_eq_eq, eq_comm]

/-- The comments of a declaration are taken over in order. -/
theorem forall₂_takenOver_iff {doc : List DocComment} {cs : List Comment} :
    List.Forall₂ DocComment.TakenOver doc cs ↔ cs = docComments doc :=
  forall₂_iff_eq_map DocComment.takenOver_iff

namespace SourceComment

open Comment

theorem stripMarkers_line (body : List Char) :
    stripMarkers ('/' :: '/' :: body) = dropBack ['*', '/'] (dropFront ['/', '*'] body) :=
  congrArg (fun cs => dropBack ['*', '/'] (dropFront ['/', '*'] cs)) (dropFront_append ['/', '/'] body)

theorem stripMarkers_block (body : List Char) :
    stripMarkers ('/' :: '*' :: (body ++ ['*', '/'])) = body := by
  have hline : dropFront ['/', '/'] ('/' :: '*' :: (body ++ ['*', '/'])) =
      ['/', '*'] ++ (body ++ ['*', '/']) := dropFront_eq_self (by simp)
  rw [stripMarkers, hline, dropFront_append, dropBack_append]

/-- A block is taken over with all that stands between its markers. -/
theorem text_of_block {body : List Char} {noEnd : Without '*' '/' body} {trailing : Bool} {c : Comment}
    (h : DocComment.TakenOver ⟨(block body noEnd).raw, trailing⟩ c) : c.text.toList = body := by
  rw [(DocComment.takenOver_iff _ c).mp h, Comment.ofSource, raw, String.toList_ofList,
    String.toList_ofList, stripMarkers_block]

/-- A comment up to the end of the line is taken over with all that follows its marker, unless one of
its ends looks like a marker of a block. -/
theorem text_of_line_iff {body : List Char} {oneLine : OneLine body} {trailing : Bool} {c : Comment}
    (h : DocComment.TakenOver ⟨(line body oneLine).raw, trailing⟩ c) :
    c.text.toList = body ↔ ¬ ['/', '*'] <+: body ∧ ¬ ['*', '/'] <:+ body := by
  rw [(DocComment.takenOver_iff _ c).mp h, Comment.ofSource, raw, String.toList_ofList,
    String.toList_ofList, stripMarkers_line]
  exact dropBack_dropFront_eq_self_iff (by decide) (by decide)

/-- Exactly the comments whose ends do not look like other markers, and whose lines are all on one line
or in a block, are printed as one comment with the text that they have in the source. -/
theorem shown_with_body_iff (g : SourceComment) (leading : Bool) :
    (Comment.ofSource g.raw leading).ShownAs g.body ↔ g.Kept := by
  have htaken : DocComment.TakenOver ⟨g.raw, !leading⟩ (Comment.ofSource g.raw leading) :=
    (DocComment.takenOver_iff _ _).mpr (by rw [Bool.not_not])
  cases g with
  | line body oneLine =>
      have hraw : OneLine (line body oneLine).raw.toList := by
        rw [raw, String.toList_ofList]
        exact List.forall_mem_cons.mpr ⟨rfl, List.forall_mem_cons.mpr ⟨rfl, oneLine⟩⟩
      have hlineBreak : '\n' ∉ (line body oneLine).raw.toList := fun hmem =>
        absurd (hraw _ hmem) (by decide)
      have hsingle := htaken.singleLine.mpr hlineBreak
      have hwell : (Comment.ofSource (line body oneLine).raw leading).WellFormed := by
        rw [WellFormed, if_pos hsingle]
        exact fun c hc => hraw c (htaken.text_sublist.subset hc)
      exact hwell.shownAs_iff.trans (text_of_line_iff htaken)
  | block body noEnd =>
      have hsingle : (Comment.ofSource (block body noEnd).raw leading).singleLine = !body.contains '\n' := by
        simp [Comment.ofSource, raw]
      have htext := text_of_block htaken
      by_cases hlineBreak : '\n' ∈ body
      · have hwell : (Comment.ofSource (block body noEnd).raw leading).WellFormed := by
          rw [WellFormed, if_neg (by simp [hsingle, hlineBreak]), htext]
          exact noEnd
        exact iff_of_true (hwell.shownAs_iff.mpr htext) (.inl hlineBreak)
      · have hshown := shownAs_text_iff (hsingle.trans (by simp [hlineBreak]))
        rw [htext] at hshown
        exact hshown.trans (or_iff_right hlineBreak).symm

/-- A comment on a pattern of files that ends like a block. -/
def pattern : SourceComment := .line " src/*/".toList (by decide)

/-- The end of the pattern is lost. -/
theorem end_of_line_lost : ¬ (Comment.ofSource pattern.raw true).ShownAs pattern.body := fun h =>
  absurd (h.eq_takeWhile (by decide)) (by decide)

end SourceComment

end TypeBridge
