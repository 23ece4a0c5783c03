import TypeBridge.Proofs.CommentText
import TypeBridge.Proofs.Outcome

/-!
Texts that show others. Taking the comments out of a text leaves the words of another, wherever the
text stands and whatever comes after it. A text that may end in half a marker has this only in front of
what does not complete the marker, so names are followed by fixed characters; lines have it as a whole,
with comments before and behind each of them. Texts that are put together show what is put together of
the others.
-/

namespace TypeBridge

open Commented
open Reading (isLayout)

/-! ### Two computations side by side -/

/-- Both computations fail with the same error, or both have results, and these are related. -/
def Coupled {ε α β : Type} (R : α → β → Prop) : Except ε α → Except ε β → Prop
  | .ok a, .ok b => R a b
  | .error e, .error e' => e = e'
  | _, _ => False

namespace Coupled

variable {ε α β γ δ : Type} {R : α → β → Prop} {S : γ → δ → Prop} {x : Except ε α} {y : Except ε β}

theorem bind {f : α → Except ε γ} {g : β → Except ε δ} (h : Coupled R x y)
    (hnext : ∀ a b, R a b → Coupled S (f a) (g b)) : Coupled S (x >>= f) (y >>= g) := by
  cases x <;> cases y <;> first | exact h.elim | exact h | exact hnext _ _ h

theorem map {f : α → γ} {g : β → δ} (h : Coupled R x y) (hresult : ∀ a b, R a b → S (f a) (g b)) :
    Coupled S (x.map f) (y.map g) := by
  cases x <;> cases y <;> first | exact h.elim | exact h | exact hresult _ _ h

theorem cases (h : Coupled R x y) :
    (∃ e, x = .error e ∧ y = .error e) ∨ ∃ a b, x = .ok a ∧ y = .ok b ∧ R a b := by
  cases x with
  | error e =>
      cases y with
      | error _ => exact .inl ⟨e, rfl, congrArg _ (Eq.symm h)⟩
      | ok _ => exact h.elim
  | ok a =>
      cases y with
      | error _ => exact h.elim
      | ok b => exact .inr ⟨a, b, rfl, rfl, h⟩

theorem self {R : α → α → Prop} (h : ∀ a, x = .ok a → R a a) : Coupled R x x := by
  cases x with
  | error e => exact rfl
  | ok a => exact h a rfl

theorem mapM {k : α → β} {f : α → Except ε γ} {g : β → Except ε δ} {xs : List α}
    (h : ∀ x ∈ xs, Coupled S (f x) (g (k x))) :
    Coupled (List.Forall₂ S) (xs.mapM f) ((xs.map k).mapM g) := by
  induction xs with
  | nil => exact List.Forall₂.nil
  | cons x xs ih =>
      obtain ⟨hfirst, hlater⟩ := List.forall_mem_cons.mp h
      rw [List.map_cons, List.mapM_cons, List.mapM_cons]
      exact hfirst.bind fun _ _ hr => (ih hlater).map fun _ _ hrs => List.Forall₂.cons hr hrs

end Coupled

namespace Commented

/-! ### Texts that show others -/

/-- Texts that have the same words wherever they stand. -/
def SameWords (cs cs' : List Char) : Prop :=
  ∀ front back, words (front ++ cs ++ back) = words (front ++ cs' ++ back)

theorem SameWords.refl (cs : List Char) : SameWords cs cs := fun _ _ => rfl

theorem SameWords.append {cs cs' ds ds' : List Char} (h : SameWords cs cs') (h' : SameWords ds ds') :
    SameWords (cs ++ ds) (cs' ++ ds') := by
  intro front back
  calc words (front ++ (cs ++ ds) ++ back)
      = words (front ++ cs ++ (ds ++ back)) := by simp only [List.append_assoc]
    _ = words (front ++ cs' ++ (ds ++ back)) := h front (ds ++ back)
    _ = words ((front ++ cs') ++ ds ++ back) := by simp only [List.append_assoc]
    _ = words ((front ++ cs') ++ ds' ++ back) := h' (front ++ cs') back
    _ = words (front ++ (cs' ++ ds') ++ back) := by simp only [List.append_assoc]

theorem SameWords.words_eq {cs cs' : List Char} (h : SameWords cs cs') : words cs = words cs' := by
  simpa using h [] []

/-- A text shows another in front of some texts: without its comments it has the words of the other. -/
def ShowsBefore (Rest : List Char → Prop) (s bare : String) : Prop :=
  ∃ ps, SameWords (code ps) bare.toList ∧
    ∀ rest, Rest rest → pieces (s.toList ++ rest) = ps ++ pieces rest

/-- A text shows another in front of whatever makes no marker with its last character. -/
def Shows (s bare : String) : Prop := ShowsBefore Apart s bare

/-- A text shows another, whatever comes after it. -/
def Closes (s bare : String) : Prop := ShowsBefore (fun _ => True) s bare

/-- A text of characters that are no part of a marker, and of one at least. -/
def Fixed (s : String) : Prop := s.toList ≠ [] ∧ AllOf isPlain s.toList

instance (s : String) : Decidable (Fixed s) := inferInstanceAs (Decidable (_ ∧ _))

variable {s s' bare bare' sep : String} {texts bares : List String}

theorem ShowsBefore.append {Rest Rest' : List Char → Prop} (h : ShowsBefore Rest s bare)
    (h' : ShowsBefore Rest' s' bare') (hrest : ∀ rest, Rest' rest → Rest (s'.toList ++ rest)) :
    ShowsBefore Rest' (s ++ s') (bare ++ bare') := by
  obtain ⟨ps, hwords, hread⟩ := h
  obtain ⟨ps', hwords', hread'⟩ := h'
  refine ⟨ps ++ ps', ?_, fun rest hnext => ?_⟩
  · rw [code_append, String.toList_append]
    exact hwords.append hwords'
  · rw [String.toList_append, List.append_assoc, hread _ (hrest rest hnext), hread' rest hnext,
      List.append_assoc]

theorem Closes.shows (h : Closes s bare) : Shows s bare := by
  obtain ⟨ps, hwords, hread⟩ := h
  exact ⟨ps, hwords, fun rest _ => hread rest trivial⟩

theorem closes_plain (h : AllOf isPlain s.toList) : Closes s s :=
  ⟨s.toList.map Piece.code, by rw [code_map_code]; exact .refl _, fun rest _ => pieces_of_plain h rest⟩

theorem shows_empty : Shows "" "" := (closes_plain (by decide)).shows

theorem Fixed.closes (h : Fixed s) : Closes s s := closes_plain h.2

theorem shows_unmarked (h : Unmarked s.toList) : Shows s s :=
  ⟨s.toList.map Piece.code, by rw [code_map_code]; exact .refl _, fun _ => pieces_of_unmarked h⟩

theorem apart_of_plain {cs : List Char} (h : AllOf isPlain cs) : Apart cs := by
  cases cs with
  | nil => exact ⟨nofun, nofun⟩
  | cons c cs =>
      have hc := (List.forall_mem_cons.mp h).1
      simp only [isPlain, Bool.and_eq_true, bne_iff_ne] at hc
      exact ⟨fun heq => hc.1 (Option.some.inj heq), fun heq => hc.2 (Option.some.inj heq)⟩

theorem Fixed.apart_append (h : Fixed s) (s' : String) : Apart (s ++ s').toList := by
  rw [String.toList_append]
  exact (apart_of_plain h.2).append h.1 _

theorem Fixed.append (h : Fixed s) (h' : AllOf isPlain s'.toList) : Fixed (s' ++ s) := by
  rw [Fixed, String.toList_append]
  exact ⟨List.append_ne_nil_of_right_ne_nil _ h.1, h'.append h.2⟩

theorem Closes.append (h : Closes s bare) (h' : Closes s' bare') :
    Closes (s ++ s') (bare ++ bare') :=
  ShowsBefore.append h h' fun _ _ => trivial

theorem Closes.append_shows (h : Closes s bare) (h' : Shows s' bare') :
    Shows (s ++ s') (bare ++ bare') :=
  ShowsBefore.append h h' fun _ _ => trivial

theorem Shows.append (h : Shows s bare) (h' : Shows s' bare') (hapart : Apart s'.toList) :
    Shows (s ++ s') (bare ++ bare') := by
  refine ShowsBefore.append h h' fun rest hrest => ?_
  by_cases hempty : s'.toList = []
  · rwa [hempty]
  · exact hapart.append hempty rest

/-- A text is closed by a fixed one behind it. -/
theorem Shows.append_fixed (h : Shows s bare) (sep : String) (hsep : Fixed sep) :
    Closes (s ++ sep) (bare ++ sep) :=
  ShowsBefore.append h hsep.closes fun rest _ => (apart_of_plain hsep.2).append hsep.1 rest

theorem shows_intercalate (hsep : Fixed sep) (h : List.Forall₂ Shows texts bares) :
    Shows (sep.intercalate texts) (sep.intercalate bares) := by
  induction h with
  | nil => exact shows_empty
  | @cons s bare texts bares hfirst hrest ih =>
      cases hrest with
      | nil => simpa using hfirst
      | cons hnext hrest =>
          rw [String.intercalate_cons_cons, String.intercalate_cons_cons]
          exact (hfirst.append_fixed sep hsep).append_shows ih

/-- A text that may stand behind a name. -/
def Follows (s bare : String) : Prop := Shows s bare ∧ Apart s.toList

theorem Follows.nil : Follows "" "" := ⟨shows_empty, by decide⟩

theorem Fixed.follows (hsep : Fixed sep) (h : Shows s bare) : Follows (sep ++ s) (sep ++ bare) :=
  ⟨hsep.closes.append_shows h, hsep.apart_append s⟩

theorem Follows.append (h : Follows s bare) (h' : Follows s' bare') :
    Follows (s ++ s') (bare ++ bare') := by
  refine ⟨h.1.append h'.1 h'.2, ?_⟩
  rw [String.toList_append]
  by_cases hempty : s.toList = []
  · rw [hempty]
    exact h'.2
  · exact h.2.append hempty _

theorem follows_join (h : List.Forall₂ Follows texts bares) :
    Follows (String.join texts) (String.join bares) := by
  induction h with
  | nil => exact .nil
  | cons hfirst _ ih =>
      rw [String.join_cons, String.join_cons]
      exact hfirst.append ih

/-! ### Lines -/

/-- A text that is empty or ends in layout. -/
def EndsInLayout (cs : List Char) : Prop := ∀ c, cs.getLast? = some c → isLayout c = true

theorem words_append {cs : List Char} (h : EndsInLayout cs) (back : List Char) :
    words (cs ++ back) = words cs ++ words back := by
  rcases List.eq_nil_or_concat cs with rfl | ⟨front, c, rfl⟩
  · rw [words_nil]
    rfl
  · have hc := h c (by simp)
    rw [List.concat_eq_append, words_append_layout (List.forall_mem_singleton.mpr hc), List.append_assoc,
      List.singleton_append, words_append_cons hc]

theorem EndsInLayout.append {cs cs' : List Char} (h : EndsInLayout cs) (h' : EndsInLayout cs') :
    EndsInLayout (cs ++ cs') := by
  intro c hc
  rw [List.getLast?_append] at hc
  cases hlast : cs'.getLast? with
  | none => exact h c (by simpa [hlast] using hc)
  | some last =>
      rw [hlast] at hc
      cases hc
      exact h' _ hlast

theorem endsInLayout_newline (cs : List Char) : EndsInLayout (cs ++ ['\n']) := by
  intro c hc
  rw [List.getLast?_concat] at hc
  cases hc
  rfl

/-- Lines of a text that have the words of the lines of another one. -/
def ShowsLines (s bare : String) : Prop :=
  ∃ ps, words (code ps) = words bare.toList ∧ EndsInLayout (code ps) ∧ EndsInLayout bare.toList ∧
    ∀ rest, pieces (s.toList ++ rest) = ps ++ pieces rest

theorem ShowsLines.nil : ShowsLines "" "" := ⟨[], rfl, nofun, nofun, fun _ => rfl⟩

theorem ShowsLines.append (h : ShowsLines s bare) (h' : ShowsLines s' bare') :
    ShowsLines (s ++ s') (bare ++ bare') := by
  obtain ⟨ps, hwords, hends, hbare, hread⟩ := h
  obtain ⟨ps', hwords', hends', hbare', hread'⟩ := h'
  refine ⟨ps ++ ps', ?_, ?_, ?_, fun rest => ?_⟩
  · rw [code_append, String.toList_append, words_append hends, words_append hbare, hwords, hwords']
  · rw [code_append]
    exact hends.append hends'
  · rw [String.toList_append]
    exact hbare.append hbare'
  · rw [String.toList_append, List.append_assoc, hread, hread', List.append_assoc]

/-- Lines are closed by the line break in front of them. -/
theorem ShowsLines.closes (h : ShowsLines s bare) : Closes ("\n" ++ s) ("\n" ++ bare) := by
  obtain ⟨ps, hwords, hends, hbare, hread⟩ := h
  refine ⟨.code '\n' :: ps, fun front back => ?_, fun rest _ => ?_⟩
  · have hsplit : ∀ {cs : List Char}, EndsInLayout cs →
        words (front ++ '\n' :: cs ++ back) = words front ++ (words cs ++ words back) := by
      intro cs hcs
      rw [List.append_assoc, List.cons_append, words_append_cons rfl, words_append hcs]
    rw [String.toList_append]
    exact (hsplit hends).trans (hwords ▸ (hsplit hbare).symm)
  · rw [String.toList_append, List.append_assoc]
    exact (pieces_layout_cons rfl (s.toList ++ rest)).trans (congrArg _ (hread rest))

/-- A line with comments before it and behind it. -/
theorem showsLines_commented {lead trail : String} (hlead : Silent lead.toList) (h : Shows s bare)
    (htrail : SilentToEnd trail.toList) (hapart : Apart trail.toList) :
    ShowsLines (lead ++ s ++ trail ++ "\n") (bare ++ "\n") := by
  obtain ⟨ps, hwords, hread⟩ := h
  obtain ⟨front, hfront, hreadFront⟩ := hlead
  obtain ⟨back, hback, hreadBack⟩ := htrail
  have hcode : code (front ++ ps ++ back ++ [.code '\n']) =
      code front ++ (code ps ++ (code back ++ ['\n'])) := by
    simp
  have hend : AllOf isLayout (code back ++ ['\n']) :=
    hback.append (List.forall_mem_singleton.mpr rfl)
  have htoList : ∀ u : String, (u ++ "\n").toList = u.toList ++ ['\n'] := fun _ => String.toList_append
  refine ⟨front ++ ps ++ back ++ [.code '\n'], ?_, ?_, ?_, fun rest => ?_⟩
  · rw [hcode, words_layout hfront, words_append_layout hend, hwords.words_eq, htoList bare,
      words_append_layout (List.forall_mem_singleton.mpr rfl)]
  · rw [hcode, ← List.append_assoc, ← List.append_assoc]
    exact endsInLayout_newline _
  · rw [htoList bare]
    exact endsInLayout_newline _
  · rw [htoList, String.toList_append, String.toList_append]
    simp only [List.append_assoc]
    have hnext : Apart (trail.toList ++ '\n' :: rest) := by
      cases hempty : trail.toList with
      | nil => exact ⟨nofun, nofun⟩
      | cons c cs => exact (hempty ▸ hapart).append (List.cons_ne_nil _ _) _
    rw [hreadFront _ trivial, List.singleton_append, hread _ hnext, hreadBack _ (atLineEnd_newline rest),
      pieces_layout_cons rfl, List.singleton_append]

end Commented

/-! ### Characters without markers -/

theorem isLayout_pad (style : Style) (depth : Nat) : AllOf isLayout (style.pad depth).toList := by
  intro c hc
  rw [Style.pad, String.toList_ofList] at hc
  rw [List.eq_of_mem_replicate hc]
  rfl

theorem isPlain_pad (style : Style) (depth : Nat) : AllOf isPlain (style.pad depth).toList :=
  fun c hc => isPlain_of_isLayout (isLayout_pad style depth c hc)

theorem isPlain_modifierText (modifiers : List Modifier) :
    AllOf isPlain (modifierText modifiers).toList := by
  intro c hc
  rw [modifierText, String.toList_join, List.flatMap_map, List.mem_flatMap] at hc
  obtain ⟨m, -, hm⟩ := hc
  have hword : AllOf isPlain (m.word ++ " ").toList := by cases m <;> decide
  exact hword c hm

theorem isPlain_of_isDigit {c : Char} (h : c.isDigit = true) : isPlain c = true := by
  have hne : c ≠ '/' ∧ c ≠ '*' := by
    constructor <;> rintro rfl <;> cases h
  simp [isPlain, hne.1, hne.2]

theorem isPlain_digitString (n : Nat) : AllOf isPlain (Text.digitString n).toList := by
  intro c hc
  rw [Text.digitString, String.toList_ofList] at hc
  exact isPlain_of_isDigit (Nat.isDigit_of_mem_toDigits (by decide) (by decide) hc)

theorem isPlain_zeros (n : Nat) : AllOf isPlain (Text.zeros n).toList := by
  intro c hc
  rw [Text.zeros, String.toList_ofList] at hc
  rw [List.eq_of_mem_replicate hc]
  rfl

/-- Characters of texts that are put together. -/
theorem isPlain_append {s t : String} (h : AllOf isPlain s.toList)
    (h' : AllOf isPlain t.toList) : AllOf isPlain (s ++ t).toList := by
  rw [String.toList_append]
  exact h.append h'

theorem isPlain_positional (d : Decimal) : AllOf isPlain d.positional.toList := by
  have hdigits := isPlain_digitString d.digits
  unfold Decimal.positional
  dsimp only
  split
  · split
    · decide
    · exact isPlain_append hdigits (isPlain_zeros _)
  · split
    · refine isPlain_append (isPlain_append ?_ (by decide)) ?_
      · rw [String.toList_ofList]
        exact fun c hc => hdigits c (List.mem_of_mem_take hc)
      · rw [String.toList_ofList]
        exact fun c hc => hdigits c (List.mem_of_mem_drop hc)
    · exact isPlain_append (isPlain_append (by decide) (isPlain_zeros _)) hdigits

theorem isPlain_double (x : Double) : AllOf isPlain x.text.toList := by
  have hsign : AllOf isPlain (if x.isNegative then "-" else "").toList := by
    split <;> decide
  unfold Double.text
  dsimp only
  split
  · decide
  · split
    · exact isPlain_append hsign (isPlain_positional _)
    · exact isPlain_append hsign (by decide)

theorem isPlain_intText (n : Int) : AllOf isPlain (intText n).toList := by
  refine isPlain_append ?_ (isPlain_digitString _)
  split <;> decide

/-- In a string only a slash is written with a slash at its end, and in front it stands as it is. -/
theorem literalChar_ends (c : Char) : (literalChar c).IsChain (fun a b => a = '/' → Apart [b]) ∧
    ((literalChar c).getLast? = some '/' → c = '/') ∧
    ∃ d, (literalChar c).head? = some d ∧ (d = '\\' ∨ d = c) := by
  unfold literalChar
  split_ifs <;> simp_all

/-- Escapes put no marker into a string. -/
theorem unmarked_literalString {s : String} (h : Unmarked s.toList) :
    Unmarked (literalString s).toList := by
  have hhead : ∀ cs : List Char, ∀ d, (cs.flatMap literalChar ++ ['"']).head? = some d →
      Apart [d] ∨ cs.head? = some d := by
    intro cs d hd
    cases cs with
    | nil =>
        cases hd
        exact .inl (by decide)
    | cons c cs =>
        obtain ⟨-, -, first, hfirst, hcases⟩ := literalChar_ends c
        rw [List.flatMap_cons, List.append_assoc, List.head?_append, hfirst] at hd
        cases hd
        rcases hcases with rfl | rfl
        · exact .inl (by decide)
        · exact .inr rfl
  have hbody : ∀ cs : List Char, Unmarked cs → Unmarked (cs.flatMap literalChar ++ ['"']) := by
    intro cs hcs
    rw [unmarked_iff] at hcs ⊢
    induction cs with
    | nil => exact .singleton _
    | cons c cs ih =>
        obtain ⟨hchain, hlast, -⟩ := literalChar_ends c
        rw [List.flatMap_cons, List.append_assoc, List.isChain_append]
        refine ⟨hchain, ih hcs.tail, fun x hx y hy hslash => ?_⟩
        subst hslash
        rcases hhead cs y hy with hapart | hnext
        · exact hapart
        · obtain ⟨cs, rfl⟩ := List.head?_eq_some_iff.mp hnext
          exact (List.isChain_cons_cons.mp hcs).1 (hlast hx)
  rw [literalString, String.toList_ofList, List.append_assoc, List.singleton_append]
  have hall := hbody s.toList h
  rw [unmarked_iff] at hall ⊢
  exact hall.cons fun _ _ => nofun

end TypeBridge
