import TypeBridge.Proofs.ShownText
import TypeBridge.Proofs.Walk

/-!
Comments do not change what is printed around them. A declaration is printed together with the same
declaration without comments, and at every step the one text shows the other: when its comments are
taken out the words of the other are left. Names and literals must not look like comments, and behind
an owner no comment of several lines may stand on the line of a comment that takes the rest of it: of
such a comment all lines but the first are left as if they were code.
-/

namespace TypeBridge

open Commented
open Reading (isLayout)

/-! ### Declarations without comments -/

/-- A member with another type and without its comments. -/
def Property.bare (f : Expr → Expr) (p : Property) : Property := { p with type := f p.type, comments := [] }

namespace Expr

/-- Takes the comments off the members of an object type. -/
def clearStep : Expr → Expr
  | .typeLiteral members => .typeLiteral (members.map (Property.bare id))
  | e => e

/-- The expression without comments. -/
def uncommented (e : Expr) : Expr := e.mapSubterms clearStep

/-- The names and the strings that an expression is written with, besides those inside of it. -/
def spellings : Expr → List String
  | .literal (.string value) => [value]
  | .reference name _ => [name.emitted]
  | .typeLiteral members => members.map PropertyOf.name
  | _ => []

/-- The comments of each member of an object type. -/
def commentLists : Expr → List (List Comment)
  | .typeLiteral members => members.map PropertyOf.comments
  | _ => []

theorem uncommented_eq (e : Expr) : e.uncommented = clearStep (e.mapChildren uncommented) :=
  mapSubterms_eq clearStep e

theorem uncommented_typeLiteral (members : List Property) :
    (typeLiteral members).uncommented = .typeLiteral (members.map (Property.bare uncommented)) := by
  rw [uncommented_eq, mapChildren, clearStep, List.map_map]
  rfl

theorem needsParens_uncommented (e : Expr) : e.uncommented.needsParens = e.needsParens := by
  rw [uncommented_eq]
  cases e <;> simp [mapChildren, clearStep, needsParens]

theorem isUnion_uncommented (e : Expr) : e.uncommented.isUnion = e.isUnion := by
  rw [uncommented_eq]
  cases e <;> rfl

end Expr

namespace Form

/-- Takes the comments off the fields of a record and the members of an enum. -/
def clear : Form → Form
  | record name params heritage fields => .record name params heritage (fields.map (Property.bare id))
  | enumeration name members => .enumeration name (members.map fun m => { m with comments := [] })
  | form => form

/-- The names that a declaration is written with, besides those in its expressions. -/
def ownSpellings : Form → List String
  | typeAlias name params _ => name.emitted :: params.map fun p => p.name.emitted
  | record name params _ fields =>
      name.emitted :: (params.map fun p => p.name.emitted) ++ fields.map PropertyOf.name
  | enumeration name members => name.emitted :: members.map EnumMember.name
  | statement _ bindings => bindings.map fun b => b.name.emitted

/-- The comments of each field and each member of a declaration. -/
def ownCommentLists : Form → List (List Comment)
  | record _ _ _ fields => fields.map PropertyOf.comments
  | enumeration _ members => members.map EnumMember.comments
  | _ => []

end Form

namespace Declaration

/-- The declaration without comments, and without the file that it came from. -/
def uncommented (d : Declaration) : Declaration :=
  { d with source := none, comments := [], form := (d.form.mapSubterms Expr.clearStep).clear }

/-- All names and strings that a declaration is written with. -/
def spellings (d : Declaration) : List String :=
  d.form.ownSpellings ++ d.subterms.flatMap Expr.spellings

/-- The comments of each owner inside of a declaration. -/
def commentLists (d : Declaration) : List (List Comment) :=
  d.form.ownCommentLists ++ d.subterms.flatMap Expr.commentLists

/-- All comments that are printed with a declaration. -/
def printedComments (d : Declaration) : List Comment :=
  (d.source.map Style.sourceComment).toList ++ d.comments ++ d.commentLists.flatten

end Declaration

/-! ### Expressions -/

/-- Comments of an owner that neither end before their end nor stand where they cannot. -/
def Comment.Harmless (comments : List Comment) : Prop :=
  (∀ c ∈ comments, c.WellFormed) ∧ Comment.Sheltered comments

/-- Comments of an owner leave nothing of themselves on its line. -/
theorem Comment.Harmless.showsLines {comments : List Comment} (h : Comment.Harmless comments)
    {pad s bare : String} (hpad : AllOf isLayout pad.toList) (hs : Shows s bare) :
    ShowsLines (leadingText pad comments ++ s ++ trailingText comments ++ "\n") (bare ++ "\n") :=
  showsLines_commented (silent_leadingText h.1 hpad) hs (silentToEnd_trailingText h.1 h.2)
    (apart_trailingText comments)

/-- Nothing in an expression looks like a comment but its comments. -/
def Expr.Legible (e : Expr) : Prop :=
  ∀ t ∈ e.subterms, (∀ s ∈ t.spellings, Unmarked s.toList) ∧
    ∀ comments ∈ t.commentLists, Comment.Harmless comments

/-- An expression is printed as a text that shows the text without comments. -/
def Expr.ShownBare (style : Style) (e : Expr) : Prop :=
  ∀ depth, Coupled Shows (style.expr depth e) (style.expr depth e.uncommented)

section Printing

variable {style : Style} {depth : Nat} {e : Expr} {es : List Expr} {s bare : String}

theorem shows_propertyName {name : String} (h : Unmarked name.toList) :
    Shows (propertyName name) (propertyName name) := by
  unfold propertyName
  split
  · exact shows_unmarked h
  · exact shows_unmarked (unmarked_literalString h)

theorem shows_literal {value : Literal} (h : ∀ text ∈ (Expr.literal value).spellings, Unmarked text.toList)
    (hs : value.print = .ok s) : Shows s s := by
  cases value with
  | string text =>
      cases hs
      exact shows_unmarked (unmarked_literalString (h text (List.mem_singleton_self _)))
  | int n =>
      cases hs
      exact (closes_plain (isPlain_intText _)).shows
  | float x =>
      rw [Literal.print] at hs
      split at hs
      · cases hs
        exact (closes_plain (isPlain_double x)).shows
      · cases hs
  | bool b =>
      cases hs
      cases b <;> exact (closes_plain (by decide)).shows

theorem coupled_exprs (h : ∀ e ∈ es, e.ShownBare style) (depth : Nat) :
    Coupled (List.Forall₂ Shows) (style.exprs depth es)
      (style.exprs depth (es.map Expr.uncommented)) := by
  induction es with
  | nil => exact List.Forall₂.nil
  | cons e es ih =>
      obtain ⟨hfirst, hlater⟩ := List.forall_mem_cons.mp h
      exact (hfirst depth).bind fun _ _ hs => (ih hlater).map fun _ _ hrest => List.Forall₂.cons hs hrest

theorem forall₂_replicate {α β : Type} {R : α → β → Prop} {a : α} {b : β} (h : R a b) (n : Nat) :
    List.Forall₂ R (List.replicate n a) (List.replicate n b) := by
  induction n with
  | zero => exact .nil
  | succ n ih => exact .cons h ih

theorem shows_parenthesized (h : Shows s bare) : Shows (parenthesized s) (parenthesized bare) :=
  (((closes_plain (s := "(") (by decide)).append_shows h).append_fixed ")" (by decide)).shows

theorem shows_ifParenthesized (h : Shows s bare) (p : Bool) :
    Shows (if p then parenthesized s else s) (if p then parenthesized bare else bare) := by
  cases p with
  | true => exact shows_parenthesized h
  | false => exact h

theorem coupled_intersectionParts (h : ∀ e ∈ es, e.ShownBare style) (depth : Nat) :
    Coupled (List.Forall₂ Shows) (style.intersectionParts depth es)
      (style.intersectionParts depth (es.map Expr.uncommented)) := by
  induction es with
  | nil => exact List.Forall₂.nil
  | cons e es ih =>
      obtain ⟨hfirst, hlater⟩ := List.forall_mem_cons.mp h
      refine (hfirst depth).bind fun s bare hs => (ih hlater).map fun _ _ hrest => ?_
      rw [e.isUnion_uncommented]
      exact List.Forall₂.cons (shows_ifParenthesized hs _) hrest

/-- The line of a member, with its comments and without. -/
theorem showsLines_property {name : String} (hname : Unmarked name.toList) (modifiers : List Modifier)
    (optional : Bool) {comments : List Comment} (hcomments : Comment.Harmless comments)
    (h : Shows s bare) :
    ShowsLines (style.propertyLine depth name modifiers optional comments s)
      (style.propertyLine depth name modifiers optional [] bare) := by
  have hfront := (closes_plain (isPlain_pad style depth)).append (closes_plain (isPlain_modifierText modifiers))
  have hcolon : Fixed ((if optional then "?" else "") ++ ": ") := by cases optional <;> decide
  have hcore := (((hfront.append_shows (shows_propertyName hname)).append_fixed _ hcolon).append_shows
    h).append_fixed ";" (by decide)
  have hline := hcomments.showsLines (isLayout_pad style depth) hcore.shows
  have hempty : Comment.leadingText (style.pad depth) [] = "" ∧ Comment.trailingText [] = "" := ⟨rfl, rfl⟩
  simpa only [Style.propertyLine, hempty.1, hempty.2, String.empty_append, String.append_empty,
    String.append_assoc] using hline

theorem coupled_properties {members : List Property} (h : ∀ m ∈ members, m.type.ShownBare style)
    (hnames : ∀ m ∈ members, Unmarked m.name.toList)
    (hcomments : ∀ m ∈ members, Comment.Harmless m.comments) (depth : Nat) :
    Coupled ShowsLines (style.properties depth members)
      (style.properties depth (members.map (Property.bare Expr.uncommented))) := by
  induction members with
  | nil => exact ShowsLines.nil
  | cons m members ih =>
      obtain ⟨htype, htypes⟩ := List.forall_mem_cons.mp h
      obtain ⟨hname, hnames⟩ := List.forall_mem_cons.mp hnames
      obtain ⟨hcomment, hcomments⟩ := List.forall_mem_cons.mp hcomments
      exact (htype depth).bind fun s bare hs => (ih htypes hnames hcomments).map fun lines lines' hlines =>
        (showsLines_property hname m.modifiers m.optional hcomment hs).append hlines

/-- Every expression in which nothing looks like a comment shows itself without comments. -/
theorem Expr.Legible.shownBare (h : e.Legible) : e.ShownBare style := by
  induction e using Expr.children_induction with
  | inherited e ih =>
      obtain ⟨hinside, hnames, hcomments⟩ := Expr.forall_subterms_iff.mp h
      have hchildren : ∀ child ∈ e.children, child.ShownBare style := fun child hchild =>
        ih child hchild (hinside child hchild)
      intro depth
      rw [Expr.uncommented_eq]
      cases e with
      | keyword word => exact (closes_plain (by cases word <;> decide)).shows
      | literal value => exact Coupled.self fun s hs => shows_literal hnames hs
      | null => exact (closes_plain (by decide)).shows
      | reference name args =>
          refine (coupled_exprs hchildren depth).map fun texts bares htexts => ?_
          have hname : Shows name.emitted name.emitted :=
            shows_unmarked (hnames _ (List.mem_singleton_self _))
          cases htexts with
          | nil => exact hname
          | cons hfirst hrest =>
              exact (((hname.append_fixed "<" (by decide)).append_shows (shows_intercalate
                (by decide) (.cons hfirst hrest))).append_fixed _ (by decide)).shows
      | array elem =>
          refine (hchildren elem (List.mem_singleton_self _) depth).map fun s bare hs => ?_
          rw [elem.needsParens_uncommented]
          exact ((shows_ifParenthesized hs _).append_fixed _ (by decide)).shows
      | tuple elem length =>
          refine (hchildren elem (List.mem_singleton_self _) depth).map fun s bare hs => ?_
          exact (((closes_plain (s := "[") (by decide)).append_shows (shows_intercalate (by decide)
            (forall₂_replicate hs length))).append_fixed _ (by decide)).shows
      | arrayLiteral items =>
          refine (coupled_exprs hchildren depth).map fun texts bares htexts => ?_
          exact (((closes_plain (s := "[") (by decide)).append_shows (shows_intercalate (by decide)
            htexts)).append_fixed _ (by decide)).shows
      | union arms =>
          exact (coupled_exprs hchildren depth).map fun texts bares htexts =>
            shows_intercalate (by decide) htexts
      | intersection parts =>
          exact (coupled_intersectionParts hchildren depth).map fun texts bares htexts =>
            shows_intercalate (by decide) htexts
      | operator op inner =>
          refine (hchildren inner (List.mem_singleton_self _) depth).map fun s bare hs => ?_
          rw [inner.needsParens_uncommented]
          have hword : Closes (op.word ++ " ") (op.word ++ " ") := closes_plain (by cases op <;> decide)
          exact hword.append_shows (shows_ifParenthesized hs _)
      | typeLiteral members =>
          rw [← Expr.uncommented_eq, Expr.uncommented_typeLiteral]
          cases members with
          | nil => exact (closes_plain (by decide)).shows
          | cons m members =>
              have hlines := coupled_properties (List.forall_mem_map.mp hchildren)
                (fun m hm => hnames m.name (List.mem_map_of_mem hm)) (List.forall_mem_map.mp hcomments)
                (depth + 1)
              refine hlines.map fun lines lines' hlines => ?_
              have hopen := (closes_plain (s := "\x7b") (by decide)).append hlines.closes
              have hpad : Fixed (style.pad depth ++ "\x7d") := Fixed.append (s := "\x7d") (by decide)
                (isPlain_pad style depth)
              have hall := hopen.shows.append_fixed _ hpad
              have hbrace : "\x7b\n" = "\x7b" ++ "\n" := by decide
              simpa only [hbrace, ← String.append_assoc] using hall.shows

/-! ### Declarations -/

/-- Lines in braces behind the head of a declaration. -/
theorem Commented.Shows.append_block {lines lines' : String} (h : Shows s bare)
    (hlines : ShowsLines lines lines') :
    Closes (s ++ " \x7b\n" ++ lines ++ "\x7d") (bare ++ " \x7b\n" ++ lines' ++ "\x7d") := by
  have hall := ((h.append_fixed " \x7b" (by decide)).append hlines.closes).append
    (closes_plain (s := "\x7d") (by decide))
  have hbrace : " \x7b\n" = " \x7b" ++ "\n" := by decide
  simpa only [hbrace, ← String.append_assoc] using hall

theorem coupled_declaredName {name : Identifier} (h : Unmarked name.emitted.toList) :
    Coupled (fun s bare => Shows s bare) (Style.declaredName name) (Style.declaredName name) := by
  refine Coupled.self fun s hs => ?_
  unfold Style.declaredName at hs
  split at hs
  · cases hs
  · cases hs
    exact shows_unmarked h

theorem coupled_optionalPart {separator : String} (hsep : Fixed separator) {part : Option Expr}
    (h : ∀ e ∈ part.toList, e.ShownBare style) :
    Coupled Follows (style.optionalPart separator part)
      (style.optionalPart separator (part.map Expr.uncommented)) := by
  cases part with
  | none => exact Follows.nil
  | some e => exact (h e (List.mem_singleton_self _) 0).map fun s bare hs => hsep.follows hs

theorem coupled_typeParameter {p : TypeParameter} (hname : Unmarked p.name.emitted.toList)
    (h : ∀ e ∈ p.exprs, e.ShownBare style) :
    Coupled Shows (style.typeParameter p) (style.typeParameter (p.mapExprs Expr.uncommented)) := by
  obtain ⟨hconstraint, hdefault⟩ := List.forall_mem_append.mp h
  refine (coupled_optionalPart (by decide) hconstraint).bind fun s bare hs =>
    (coupled_optionalPart (by decide) hdefault).map fun s' bare' hs' => ?_
  have hfront := (closes_plain (isPlain_modifierText p.modifiers)).append_shows (shows_unmarked hname)
  exact (hfront.append hs.1 hs.2).append hs'.1 hs'.2

theorem coupled_typeParameters {params : List TypeParameter}
    (hnames : ∀ p ∈ params, Unmarked p.name.emitted.toList)
    (h : ∀ e ∈ params.flatMap TypeParameter.exprs, e.ShownBare style) :
    Coupled Follows (style.typeParameters params)
      (style.typeParameters (params.map (TypeParameter.mapExprs Expr.uncommented))) := by
  have hall : ∀ p ∈ params, Coupled Shows (style.typeParameter p)
      (style.typeParameter (p.mapExprs Expr.uncommented)) := fun p hp =>
    coupled_typeParameter (hnames p hp) fun e he => h e (List.mem_flatMap.mpr ⟨p, hp, he⟩)
  refine (Coupled.mapM hall).map fun texts bares htexts => ?_
  cases htexts with
  | nil => exact .nil
  | cons hfirst hrest =>
      have hcomma : Fixed ", " := by decide
      have hopen : Fixed "<" := by decide
      have hlist := (shows_intercalate hcomma (.cons hfirst hrest)).append_fixed ">" (by decide)
      have hfollows := hopen.follows hlist.shows
      simp only [← String.append_assoc] at hfollows
      exact hfollows

theorem coupled_heritageClauses {clauses : List Heritage}
    (h : ∀ e ∈ clauses.flatMap Heritage.args, e.ShownBare style) :
    Coupled Follows (style.heritageClauses clauses) (style.heritageClauses
      (clauses.map fun clause => { clause with args := clause.args.map Expr.uncommented })) := by
  refine (Coupled.mapM fun clause hclause => ?_).map fun texts bares htexts => follows_join htexts
  have hargs : ∀ e ∈ clause.args, e.ShownBare style := fun e he =>
    h e (List.mem_flatMap.mpr ⟨clause, hclause, he⟩)
  refine (coupled_exprs hargs 0).map fun texts bares htexts => ?_
  cases htexts with
  | nil => exact Follows.nil
  | cons hfirst hrest =>
      have hword : Fixed (" " ++ clause.kind.word ++ " ") := by cases clause.kind <;> decide
      exact hword.follows (shows_intercalate (by decide) (.cons hfirst hrest))

/-- The value of an enum member, behind its name. -/
def enumValue (style : Style) : Option Expr → Except PrintError String
  | none => .ok ""
  | some value => (style.expr 1 value).map (" = " ++ ·)

theorem enumMember_eq (style : Style) (last : Bool) (m : EnumMember) :
    style.enumMember last m = (enumValue style m.value).map fun value =>
      Comment.leadingText (style.pad 1) m.comments ++ style.pad 1 ++ propertyName m.name ++ value ++
        (if last then "" else ",") ++ Comment.trailingText m.comments ++ "\n" := by
  obtain ⟨name, value, comments⟩ := m
  cases value with
  | none => rfl
  | some value =>
      simp only [Style.enumMember, enumValue]
      cases style.expr 1 value <;> rfl

theorem coupled_enumValue {value : Option Expr} (h : ∀ e ∈ value.toList, e.ShownBare style) :
    Coupled Follows (enumValue style value) (enumValue style (value.map Expr.uncommented)) := by
  cases value with
  | none => exact Follows.nil
  | some e =>
      exact (h e (List.mem_singleton_self _) 1).map fun s bare hs => Fixed.follows (by decide) hs

theorem coupled_enumMember {m : EnumMember} (hname : Unmarked m.name.toList)
    (hcomments : Comment.Harmless m.comments) (h : ∀ e ∈ m.value.toList, e.ShownBare style) (last : Bool) :
    Coupled ShowsLines (style.enumMember last m)
      (style.enumMember last { m with value := m.value.map Expr.uncommented, comments := [] }) := by
  rw [enumMember_eq, enumMember_eq]
  refine (coupled_enumValue h).map fun s bare hs => ?_
  have hpad := closes_plain (isPlain_pad style 1)
  have hcomma : Closes (if last then "" else ",") (if last then "" else ",") :=
    closes_plain (by cases last <;> decide)
  have hcore := ((hpad.append_shows (shows_propertyName hname)).append hs.1 hs.2).append hcomma.shows
    (by cases last <;> decide)
  have hline := hcomments.showsLines (isLayout_pad style 1) hcore
  have hempty : Comment.leadingText (style.pad 1) [] = "" ∧ Comment.trailingText [] = "" := ⟨rfl, rfl⟩
  simpa only [hempty.1, hempty.2, String.empty_append, String.append_empty, String.append_assoc] using hline

theorem coupled_enumMembers {members : List EnumMember} (hnames : ∀ m ∈ members, Unmarked m.name.toList)
    (hcomments : ∀ m ∈ members, Comment.Harmless m.comments)
    (h : ∀ e ∈ members.flatMap fun m => m.value.toList, e.ShownBare style) :
    Coupled ShowsLines (style.enumMembers members) (style.enumMembers
      (members.map fun m => { m with value := m.value.map Expr.uncommented, comments := [] })) := by
  induction members with
  | nil => exact ShowsLines.nil
  | cons m members ih =>
      obtain ⟨hname, hnames⟩ := List.forall_mem_cons.mp hnames
      obtain ⟨hcomment, hcomments⟩ := List.forall_mem_cons.mp hcomments
      obtain ⟨hvalue, hvalues⟩ := List.forall_mem_append.mp (List.flatMap_cons ▸ h)
      rw [List.map_cons, Style.enumMembers, Style.enumMembers, List.isEmpty_map]
      exact (coupled_enumMember hname hcomment hvalue _).bind fun s bare hs =>
        (ih hnames hcomments hvalues).map fun lines lines' hlines => hs.append hlines

theorem coupled_binding {b : Binding} (hname : Unmarked b.name.emitted.toList)
    (h : ∀ e ∈ b.type.toList ++ b.initializer.toList, e.ShownBare style) :
    Coupled Shows (style.binding b) (style.binding { b with
      type := b.type.map Expr.uncommented, initializer := b.initializer.map Expr.uncommented }) := by
  obtain ⟨htype, hvalue⟩ := List.forall_mem_append.mp h
  refine (coupled_declaredName hname).bind fun s bare hs =>
    (coupled_optionalPart (by decide) htype).bind fun s' bare' hs' =>
      (coupled_optionalPart (by decide) hvalue).map fun s'' bare'' hs'' => ?_
  have hmark : Closes (if b.exclamation then "!" else "") (if b.exclamation then "!" else "") :=
    closes_plain (by cases b.exclamation <;> decide)
  have hfront := hs.append hmark.shows (by cases b.exclamation <;> decide)
  exact (hfront.append hs'.1 hs'.2).append hs''.1 hs''.2

/-- The parts of a declaration in which nothing looks like a comment but its comments. -/
structure Form.Legible (form : Form) : Prop where
  names : ∀ s ∈ form.ownSpellings, Unmarked s.toList
  comments : ∀ comments ∈ form.ownCommentLists, Comment.Harmless comments
  exprs : ∀ e ∈ form.exprs, e.Legible

theorem Form.Legible.closes {form : Form} (h : form.Legible) (style : Style) :
    Coupled Closes (style.form form) (style.form (form.mapSubterms Expr.clearStep).clear) := by
  have hshown : ∀ e ∈ form.exprs, e.ShownBare style := fun e he => (h.exprs e he).shownBare
  cases form with
  | typeAlias name params type =>
      obtain ⟨hparams, htype⟩ := List.forall_mem_append.mp hshown
      obtain ⟨hname, hnames⟩ := List.forall_mem_cons.mp h.names
      refine (coupled_declaredName hname).bind fun s bare hs =>
        (coupled_typeParameters (fun p hp => hnames _ (List.mem_map_of_mem hp)) hparams).bind fun s' bare' hs' =>
          (htype type (List.mem_singleton_self _) 0).map fun s'' bare'' hs'' => ?_
      have hfront := ((closes_plain (s := "type ") (by decide)).append_shows hs).append hs'.1 hs'.2
      exact ((hfront.append_fixed _ (by decide)).append_shows hs'').append_fixed _ (by decide)
  | record name params heritage fields =>
      obtain ⟨hfront, hfields⟩ := List.forall_mem_append.mp hshown
      obtain ⟨hparams, hargs⟩ := List.forall_mem_append.mp hfront
      obtain ⟨hname, hnames⟩ := List.forall_mem_cons.mp h.names
      obtain ⟨hparamNames, hfieldNames⟩ := List.forall_mem_append.mp hnames
      have htypes : ∀ m ∈ fields, m.type.ShownBare style := List.forall_mem_map.mp hfields
      have hlines := coupled_properties htypes
        (fun m hm => hfieldNames _ (List.mem_map_of_mem hm)) (List.forall_mem_map.mp h.comments) 1
      have hbare : (fields.map fun p => { p with type := p.type.uncommented }).map (Property.bare id) =
          fields.map (Property.bare Expr.uncommented) := List.map_map
      rw [← hbare] at hlines
      refine (coupled_declaredName hname).bind fun s bare hs =>
        (coupled_typeParameters (fun p hp => hparamNames _ (List.mem_map_of_mem hp)) hparams).bind
          fun s' bare' hs' => (coupled_heritageClauses hargs).bind
            fun s'' bare'' hs'' => hlines.map fun lines lines' hlines => ?_
      have hhead := ((closes_plain (s := "interface ") (by decide)).append_shows hs).append hs'.1 hs'.2
      exact (hhead.append hs''.1 hs''.2).append_block hlines
  | enumeration name members =>
      obtain ⟨hname, hnames⟩ := List.forall_mem_cons.mp h.names
      have hmembers : ∀ m ∈ members, Unmarked m.name.toList := fun m hm =>
        hnames _ (List.mem_map_of_mem hm)
      have hlines := coupled_enumMembers hmembers (List.forall_mem_map.mp h.comments) hshown
      have hbare : (members.map fun m => { m with value := m.value.map Expr.uncommented }).map
          (fun m => { m with comments := [] }) =
          members.map fun m => { m with value := m.value.map Expr.uncommented, comments := [] } :=
        List.map_map
      rw [← hbare] at hlines
      refine (coupled_declaredName hname).bind fun s bare hs => hlines.map fun lines lines' hlines => ?_
      exact ((closes_plain (s := "enum ") (by decide)).append_shows hs).append_block hlines
  | statement kind bindings =>
      have hbinding : ∀ b ∈ bindings, Coupled Shows (style.binding b) (style.binding { b with
          type := b.type.map Expr.uncommented, initializer := b.initializer.map Expr.uncommented }) :=
        fun b hb => coupled_binding (h.names _ (List.mem_map_of_mem hb)) fun e he =>
          hshown e (List.mem_flatMap.mpr ⟨b, hb, he⟩)
      refine (Coupled.mapM hbinding).map fun texts bares htexts => ?_
      have hword : Closes (kind.word ++ " ") (kind.word ++ " ") := closes_plain (by cases kind <;> decide)
      exact (hword.append_shows (shows_intercalate (by decide) htexts)).append_fixed _ (by decide)

end Printing

/-! ### The whole text -/

/-- The words that are left of a text without its comments. -/
def wordsOf (text : String) : List (List Char) := words (code (pieces text.toList))

theorem Declaration.legible {d : Declaration} (hwell : ∀ c ∈ d.printedComments, c.WellFormed)
    (hunmarked : ∀ s ∈ d.spellings, Unmarked s.toList)
    (hsheltered : ∀ comments ∈ d.commentLists, Comment.Sheltered comments) : d.form.Legible := by
  obtain ⟨hown, hinside⟩ := List.forall_mem_append.mp hunmarked
  have hharmless : ∀ comments ∈ d.commentLists, Comment.Harmless comments := fun comments hcomments =>
    ⟨fun c hc => hwell c (List.mem_append_right _ (List.mem_flatten.mpr ⟨comments, hcomments, hc⟩)),
      hsheltered comments hcomments⟩
  obtain ⟨hownComments, hinsideComments⟩ := List.forall_mem_append.mp hharmless
  refine ⟨hown, hownComments, fun e he t ht => ⟨fun s hs => ?_, fun comments hcomments => ?_⟩⟩
  · exact hinside s (List.mem_flatMap.mpr ⟨t, List.mem_flatMap.mpr ⟨e, he, ht⟩, hs⟩)
  · exact hinsideComments comments
      (List.mem_flatMap.mpr ⟨t, List.mem_flatMap.mpr ⟨e, he, ht⟩, hcomments⟩)

/-- Comments before a text leave nothing, and comments behind it what is left of them where they stand
alone. -/
theorem wordsOf_commented {lead s bare : String} (hlead : Silent lead.toList) (h : Closes s bare)
    (comments : List Comment) : wordsOf (lead ++ s ++ Comment.trailingText comments) =
      words bare.toList ++ wordsOf (Comment.trailingText comments) := by
  obtain ⟨front, hfront, hreadFront⟩ := hlead
  obtain ⟨ps, hwords, hread⟩ := h
  have hpieces : pieces (lead ++ s ++ Comment.trailingText comments).toList =
      front ++ (ps ++ pieces (Comment.trailingText comments).toList) := by
    rw [String.toList_append, String.toList_append, List.append_assoc, hreadFront _ trivial,
      hread _ trivial]
  have hshown := hwords [] (code (pieces (Comment.trailingText comments).toList))
  rw [List.nil_append, List.nil_append] at hshown
  rw [wordsOf, wordsOf, hpieces, code_append, code_append, words_layout hfront, hshown]
  rcases Comment.trailingText_starts comments with hempty | ⟨cs, hspace⟩
  · rw [hempty, pieces, code, List.filterMap_nil, words_nil]
    simp
  · have hcode : code (pieces (' ' :: cs)) = ' ' :: code (pieces cs) := by
      rw [pieces_layout_cons rfl]
      rfl
    rw [hspace, hcode, words_append_cons rfl, ← List.singleton_append,
      words_layout (List.forall_mem_singleton.mpr rfl)]

/-- Nothing is left of the comments behind a declaration, unless one of several lines stands behind one
that takes the rest of the line. -/
theorem wordsOf_trailingText {comments : List Comment} (hwell : ∀ c ∈ comments, c.WellFormed)
    (hsheltered : Comment.Sheltered comments) : wordsOf (Comment.trailingText comments) = [] := by
  obtain ⟨ps, hlayout, hread⟩ := Comment.silentToEnd_trailingText hwell hsheltered
  have hpieces := hread [] nofun
  rw [pieces, List.append_nil, List.append_nil] at hpieces
  rw [wordsOf, hpieces, ← List.append_nil (code ps), words_layout hlayout, words_nil]

/-- Comments are inert: a declaration and the same declaration without comments fail with the same error,
or both are printed and the words of the one text without its comments are those of the other. Behind
them stand the words that the trailing comments of the declaration leave where they stand alone: none, if
no comment of several lines stands behind one that takes the rest of the line. -/
theorem Style.comments_inert (style : Style) {d : Declaration}
    (hwell : ∀ c ∈ d.printedComments, c.WellFormed) (hunmarked : ∀ s ∈ d.spellings, Unmarked s.toList)
    (hsheltered : ∀ comments ∈ d.commentLists, Comment.Sheltered comments) :
    (∃ e, style.print d = .error e ∧ style.print d.uncommented = .error e) ∨
      ∃ text bare, style.print d = .ok text ∧ style.print d.uncommented = .ok bare ∧
        wordsOf text = words bare.toList ++ wordsOf (Comment.trailingText d.comments) ∧
        (Comment.Sheltered d.comments → wordsOf text = words bare.toList) := by
  have hform := (Declaration.legible hwell hunmarked hsheltered).closes style
  have hown : ∀ c ∈ (d.source.map Style.sourceComment).toList ++ d.comments, c.WellFormed := fun c hc =>
    hwell c (List.mem_append_left _ hc)
  have hlead : Silent (Comment.leadingText "" _).toList := Comment.silent_leadingText hown nofun
  have hmodifiers := closes_plain (isPlain_modifierText d.modifiers)
  simp only [Style.print, Declaration.uncommented]
  generalize style.form d.form = printed at hform
  generalize style.form (d.form.mapSubterms Expr.clearStep).clear = printedBare at hform
  rcases hform.cases with ⟨e, rfl, rfl⟩ | ⟨text, bare, rfl, rfl, hcloses⟩
  · exact .inl ⟨e, rfl, rfl⟩
  · refine .inr ⟨_, modifierText d.modifiers ++ bare, rfl, ?_, ?_⟩
    · simp [Comment.leadingText, Comment.trailingText, bind, Except.bind, pure, Except.pure]
    · have hwords := wordsOf_commented hlead (hmodifiers.append hcloses) d.comments
      rw [← String.append_assoc] at hwords
      refine ⟨hwords, fun hlast => hwords.trans ?_⟩
      rw [wordsOf_trailingText (fun c hc => hown c (List.mem_append_right _ hc)) hlast, List.append_nil]

/-- A record with comments before it and behind it, on its field and inside of the type of the field. -/
def price : Declaration where
  source := some "shop.go"
  comments := [.before " A price\n in cents ", .after " rounded", .after " half up"]
  form := .record { name := "Price" } [] []
    [⟨"amount", [.readonly], false,
      .typeLiteral [⟨"cents", [], true, .keyword .number, [⟨true, false, "*", false⟩]⟩],
      [.after "* never negative", .before "*/"]⟩]

theorem comments_inert_price : ∃ text bare, Style.print {} price = .ok text ∧
    Style.print {} price.uncommented = .ok bare ∧ wordsOf text = words bare.toList := by
  obtain ⟨e, herror, -⟩ | ⟨text, bare, htext, hbare, -, hwords⟩ :=
    Style.comments_inert {} (d := price) (by decide +kernel) (by decide +kernel) (by decide)
  · cases herror
  · exact ⟨text, bare, htext, hbare, hwords (by decide)⟩

/-- A type with a comment up to the end of the line behind it, and a block of two lines behind that. -/
def cramped : Declaration where
  comments := [⟨false, true, " a", true⟩, ⟨false, false, " b\nc ", true⟩]
  form := .typeAlias { name := "A" } [] (.keyword .string)

/-- The block starts on a line that is a comment already, so its second line is code. -/
theorem later_line_leaks :
    (∀ c ∈ cramped.printedComments, c.WellFormed) ∧ (∀ s ∈ cramped.spellings, Unmarked s.toList) ∧
    Style.print {} cramped = .ok "type A = string; // a /* b\nc */" ∧
    Style.print {} cramped.uncommented = .ok "type A = string;" ∧
    wordsOf "type A = string; // a /* b\nc */" = words "type A = string;".toList ++ [['c'], ['*', '/']] ∧
    wordsOf "type A = string; // a /* b\nc */" ≠ words "type A = string;".toList := by
  have hcode : code (pieces "type A = string; // a /* b\nc */".toList) =
      "type A = string; \nc */".toList := by
    simp [pieces, endsLine]
  refine ⟨by decide, by decide, by rfl, by rfl, ?_, ?_⟩
  · rw [wordsOf, hcode]
    decide
  · rw [wordsOf, hcode]
    decide

end TypeBridge
