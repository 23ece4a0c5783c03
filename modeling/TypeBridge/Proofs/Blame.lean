import TypeBridge.Proofs.Scanning

/-!
Where the errors of the parser point. At every place of a type it is known what has to come: a list
of goals, of which the next token meets the first or gives new ones. The tokens so far can be extended
to a type exactly as long as the goals are not missed, since every goal can be met. The parser follows
the goals token by token, so what it complains about is the first token that misses them, and it
misses the end of the text only where goals are left.
-/

namespace TypeBridge.TypeText

/-- The kinds of tokens that make up a type. -/
def Accepted (ks : List TokenKind) : Prop := ∃ ls t, Denotes ls t ∧ ls.map Lexeme.kind = ks

/-- The kinds of tokens that make up type arguments, with the bracket that closes them. -/
def AcceptedArgs (ks : List TokenKind) : Prop :=
  ∃ ls args, DenotesArgs ls args ∧ ls.map Lexeme.kind = ks

/-! ### Goals -/

/-- What may have to come at a place of a type. -/
inductive Goal where
  | token (kind : TokenKind)
  | type
  | lengthOrClose
  /-- The arguments of a name, which may be missing. -/
  | arguments
  | moreArguments

/-- The goals in the place of one that a token starts to meet. -/
def Goal.next : Goal → TokenKind → Option (List Goal)
  | .token kind, k => if k = kind then some [] else none
  | .type, .star => some [.type]
  | .type, .bracketOpen => some [.lengthOrClose]
  | .type, .kwMap => some [.token .bracketOpen, .type, .token .bracketClose, .type]
  | .type, .kwChan => some [.type]
  | .type, .kwInterface => some [.token .braceOpen, .token .braceClose]
  | .type, .kwStruct => some [.token .braceOpen, .token .braceClose]
  | .type, .name => some [.arguments]
  | .lengthOrClose, .bracketClose => some [.type]
  | .lengthOrClose, .int => some [.token .bracketClose, .type]
  | .arguments, .bracketOpen => some [.type, .moreArguments]
  | .moreArguments, .comma => some [.type, .moreArguments]
  | .moreArguments, .bracketClose => some []
  | _, _ => none

/-- The goals after a token. Missing arguments are passed over. -/
def step : List Goal → TokenKind → Option (List Goal)
  | [], _ => none
  | .arguments :: goals, k =>
      if k = .bracketOpen then some (.type :: .moreArguments :: goals) else step goals k
  | goal :: goals, k => (goal.next k).map (· ++ goals)

/-- The goals that are left at the end. -/
def settle : List Goal → List Goal
  | .arguments :: goals => settle goals
  | goals => goals

/-- The goals that are left after some tokens, unless one of them misses its goal. -/
def run : List Goal → List TokenKind → Option (List Goal)
  | goals, [] => some (settle goals)
  | goals, k :: ks => (step goals k).bind (run · ks)

theorem step_token (kind : TokenKind) (goals : List Goal) (k : TokenKind) :
    step (.token kind :: goals) k = if k = kind then some goals else none := by
  show (Goal.next (.token kind) k).map (· ++ goals) = _
  rw [Goal.next]
  split <;> rfl

theorem run_arguments_cons {k : TokenKind} (h : k ≠ .bracketOpen) (goals : List Goal)
    (ks : List TokenKind) : run (.arguments :: goals) (k :: ks) = run goals (k :: ks) := by
  rw [run, run, step, if_neg h]

/-- The sequences of kinds that meet a goal. -/
def Goal.MetBy : Goal → List TokenKind → Prop
  | .token kind, ks => ks = [kind]
  | .type, ks => Accepted ks
  | .lengthOrClose, ks => Accepted (.bracketOpen :: ks)
  | .arguments, ks => Accepted (.name :: ks)
  | .moreArguments, ks => ∀ us, Accepted us → AcceptedArgs (us ++ ks)

/-- The sequences of kinds that meet all goals in turn. -/
def Meets : List Goal → List TokenKind → Prop
  | [], ks => ks = []
  | goal :: goals, ks => ∃ us vs, ks = us ++ vs ∧ goal.MetBy us ∧ Meets goals vs

@[simp] theorem meets_nil_iff {ks : List TokenKind} : Meets [] ks ↔ ks = [] := Iff.rfl

theorem meets_cons_iff {goal : Goal} {goals : List Goal} {ks : List TokenKind} :
    Meets (goal :: goals) ks ↔ ∃ us vs, ks = us ++ vs ∧ goal.MetBy us ∧ Meets goals vs := Iff.rfl

@[simp] theorem meets_singleton_iff {goal : Goal} {ks : List TokenKind} :
    Meets [goal] ks ↔ goal.MetBy ks := by
  simp [meets_cons_iff]

theorem exists_of_meets_append {front back : List Goal} {ks : List TokenKind}
    (h : Meets (front ++ back) ks) :
    ∃ us vs, ks = us ++ vs ∧ Meets front us ∧ Meets back vs := by
  induction front generalizing ks with
  | nil => exact ⟨[], ks, rfl, rfl, h⟩
  | cons goal front ih =>
      obtain ⟨us, vs, rfl, hgoal, hrest⟩ := h
      obtain ⟨us', vs', rfl, hfront, hback⟩ := ih hrest
      exact ⟨us ++ us', vs', (List.append_assoc _ _ _).symm, ⟨us, us', rfl, hgoal, hfront⟩, hback⟩

/-! ### Goals can be met -/

section Accepted

variable {us vs : List TokenKind}

theorem names_letter : Names "T" none "T" := ⟨by decide, rfl⟩

theorem accepted_name : Accepted [.name] :=
  ⟨[⟨.name, "T"⟩], _, .name (by decide) names_letter, rfl⟩

theorem Accepted.pointer (h : Accepted us) : Accepted (.star :: us) := by
  obtain ⟨ls, t, ht, rfl⟩ := h
  exact ⟨⟨.star, "*"⟩ :: ls, _, .pointer ht, rfl⟩

theorem Accepted.slice (h : Accepted us) : Accepted (.bracketOpen :: .bracketClose :: us) := by
  obtain ⟨ls, t, ht, rfl⟩ := h
  exact ⟨⟨.bracketOpen, "["⟩ :: ⟨.bracketClose, "]"⟩ :: ls, _, .slice ht, rfl⟩

theorem Accepted.array (h : Accepted us) :
    Accepted (.bracketOpen :: .int :: .bracketClose :: us) := by
  obtain ⟨ls, t, ht, rfl⟩ := h
  have hlength : Text.digitsValue "0".toList = (0 : UInt64).toNat := by decide
  exact ⟨⟨.bracketOpen, "["⟩ :: ⟨.int, "0"⟩ :: ⟨.bracketClose, "]"⟩ :: ls, _, .array hlength ht, rfl⟩

theorem Accepted.map (hus : Accepted us) (hvs : Accepted vs) :
    Accepted (.kwMap :: .bracketOpen :: (us ++ .bracketClose :: vs)) := by
  obtain ⟨ks, k, hk, rfl⟩ := hus
  obtain ⟨ls, v, hv, rfl⟩ := hvs
  refine ⟨⟨.kwMap, "map"⟩ :: ⟨.bracketOpen, "["⟩ :: (ks ++ ⟨.bracketClose, "]"⟩ :: ls), _,
    .map hk hv, ?_⟩
  simp

theorem Accepted.chan (h : Accepted us) : Accepted (.kwChan :: us) := by
  obtain ⟨ls, t, ht, rfl⟩ := h
  exact ⟨⟨.kwChan, "chan"⟩ :: ls, _, .chan ht, rfl⟩

theorem accepted_interface : Accepted [.kwInterface, .braceOpen, .braceClose] :=
  ⟨[⟨_, "interface"⟩, ⟨_, "\x7b"⟩, ⟨_, "\x7d"⟩], _, .interface, rfl⟩

theorem accepted_struct : Accepted [.kwStruct, .braceOpen, .braceClose] :=
  ⟨[⟨_, "struct"⟩, ⟨_, "\x7b"⟩, ⟨_, "\x7d"⟩], _, .struct, rfl⟩

theorem AcceptedArgs.instantiated (h : AcceptedArgs us) : Accepted (.name :: .bracketOpen :: us) := by
  obtain ⟨ls, args, hargs, rfl⟩ := h
  exact ⟨⟨.name, "T"⟩ :: ⟨.bracketOpen, "["⟩ :: ls, _, .instantiated names_letter hargs, rfl⟩

theorem Accepted.last (h : Accepted us) : AcceptedArgs (us ++ [.bracketClose]) := by
  obtain ⟨ls, t, ht, rfl⟩ := h
  exact ⟨ls ++ [⟨.bracketClose, "]"⟩], _, .last ht, by simp⟩

theorem Accepted.more (hus : Accepted us) (hvs : AcceptedArgs vs) :
    AcceptedArgs (us ++ .comma :: vs) := by
  obtain ⟨ls, t, ht, rfl⟩ := hus
  obtain ⟨ms, args, hargs, rfl⟩ := hvs
  exact ⟨ls ++ ⟨.comma, ","⟩ :: ms, _, .more ht hargs, by simp⟩

end Accepted

/-- A token and what meets the new goals meet the goal in whose place they are. -/
theorem Goal.metBy_cons {goal : Goal} {k : TokenKind} {new : List Goal} {us : List TokenKind}
    (h : goal.next k = some new) (hus : Meets new us) : goal.MetBy (k :: us) := by
  cases goal with
  | token kind =>
      rw [Goal.next] at h
      split at h <;> cases h
      rename_i heq
      cases hus
      exact heq ▸ rfl
  | type =>
      cases k with
      | star =>
          cases h
          exact (meets_singleton_iff.mp hus).pointer
      | bracketOpen =>
          cases h
          have hlength : Goal.lengthOrClose.MetBy us := meets_singleton_iff.mp hus
          exact hlength
      | kwMap =>
          cases h
          obtain ⟨_, _, rfl, rfl, key, _, rfl, hkey, _, value, rfl, rfl, hvalue⟩ := hus
          exact hkey.map (meets_singleton_iff.mp hvalue)
      | kwChan =>
          cases h
          exact (meets_singleton_iff.mp hus).chan
      | kwInterface =>
          cases h
          obtain ⟨_, _, rfl, rfl, _, _, rfl, rfl, rfl⟩ := hus
          exact accepted_interface
      | kwStruct =>
          cases h
          obtain ⟨_, _, rfl, rfl, _, _, rfl, rfl, rfl⟩ := hus
          exact accepted_struct
      | name =>
          cases h
          have harguments : Goal.arguments.MetBy us := meets_singleton_iff.mp hus
          exact harguments
      | _ => cases h
  | lengthOrClose =>
      cases k with
      | bracketClose =>
          cases h
          exact Accepted.slice (meets_singleton_iff.mp hus)
      | int =>
          cases h
          obtain ⟨_, elem, rfl, rfl, helem⟩ := hus
          exact Accepted.array (meets_singleton_iff.mp helem)
      | _ => cases h
  | arguments =>
      cases k with
      | bracketOpen =>
          cases h
          obtain ⟨first, more, rfl, hfirst, hmore⟩ := hus
          exact (meets_singleton_iff.mp hmore first hfirst).instantiated
      | _ => cases h
  | moreArguments =>
      cases k with
      | comma =>
          cases h
          obtain ⟨first, more, rfl, hfirst, hmore⟩ := hus
          exact fun before hbefore => hbefore.more (meets_singleton_iff.mp hmore first hfirst)
      | bracketClose =>
          cases h
          cases hus
          exact fun before hbefore => hbefore.last
      | _ => cases h

theorem Goal.exists_metBy (goal : Goal) : ∃ us, goal.MetBy us := by
  cases goal with
  | token kind => exact ⟨[kind], rfl⟩
  | type => exact ⟨_, accepted_name⟩
  | lengthOrClose => exact ⟨_, accepted_name.slice⟩
  | arguments => exact ⟨[], accepted_name⟩
  | moreArguments => exact ⟨[.bracketClose], fun _ => Accepted.last⟩

theorem exists_meets (goals : List Goal) : ∃ ks, Meets goals ks := by
  induction goals with
  | nil => exact ⟨[], rfl⟩
  | cons goal goals ih =>
      obtain ⟨us, hus⟩ := goal.exists_metBy
      obtain ⟨vs, hvs⟩ := ih
      exact ⟨us ++ vs, us, vs, rfl, hus, hvs⟩

theorem meets_of_step {goals new : List Goal} {k : TokenKind} {ks : List TokenKind}
    (h : step goals k = some new) (hks : Meets new ks) : Meets goals (k :: ks) := by
  induction goals with
  | nil => cases h
  | cons goal goals ih =>
      by_cases hmissing : goal = .arguments ∧ k ≠ .bracketOpen
      · obtain ⟨rfl, hk⟩ := hmissing
        rw [step, if_neg hk] at h
        exact ⟨[], k :: ks, rfl, accepted_name, ih h⟩
      · have hnext : (goal.next k).map (· ++ goals) = some new := by
          cases goal with
          | arguments =>
              obtain rfl : k = .bracketOpen := by simpa using hmissing
              exact h
          | _ => exact h
        obtain ⟨added, hadded, rfl⟩ := Option.map_eq_some_iff.mp hnext
        obtain ⟨us, vs, rfl, hus, hvs⟩ := exists_of_meets_append hks
        exact ⟨k :: us, vs, rfl, goal.metBy_cons hadded hus, hvs⟩

theorem meets_settle {goals : List Goal} {ks : List TokenKind} (h : Meets (settle goals) ks) :
    Meets goals ks := by
  induction goals with
  | nil => exact h
  | cons goal goals ih =>
      cases goal with
      | arguments => exact ⟨[], ks, rfl, accepted_name, ih h⟩
      | _ => exact h

/-- As long as no token misses its goal, the tokens can be extended. -/
theorem exists_meets_of_run {goals left : List Goal} {ks : List TokenKind}
    (h : run goals ks = some left) : ∃ more, Meets goals (ks ++ more) := by
  induction ks generalizing goals with
  | nil =>
      obtain ⟨more, hmore⟩ := exists_meets (settle goals)
      exact ⟨more, meets_settle hmore⟩
  | cons k ks ih =>
      obtain ⟨new, hnew, hrun⟩ := Option.bind_eq_some_iff.mp h
      obtain ⟨more, hmore⟩ := ih hrun
      exact ⟨more, meets_of_step hnew hmore⟩

/-! ### The parser follows the goals -/

/-- The kinds of some tokens. -/
def kinds (ts : List Token) : List TokenKind := ts.map Token.kind

@[simp] theorem kinds_cons (t : Token) (ts : List Token) : kinds (t :: ts) = t.kind :: kinds ts := rfl

/-- The tokens up to a rest lead from some goals to others, whatever part of the rest follows. -/
def Passes (goals : List Goal) (ts : List Token) (next : List Goal) (rest : List Token) : Prop :=
  ∃ used, ts = used ++ rest ∧
    ∀ more, more <+: rest → run goals (kinds (used ++ more)) = run next (kinds more)

namespace Passes

variable {goals mid next : List Goal} {ts left rest : List Token}

theorem refl (goals : List Goal) (ts : List Token) : Passes goals ts goals ts :=
  ⟨[], rfl, fun _ _ => rfl⟩

theorem trans (h : Passes goals ts mid left) (h' : Passes mid left next rest) :
    Passes goals ts next rest := by
  obtain ⟨used, rfl, hused⟩ := h
  obtain ⟨used', rfl, hused'⟩ := h'
  refine ⟨used ++ used', (List.append_assoc _ _ _).symm, fun more hmore => ?_⟩
  rw [List.append_assoc, hused _ (List.prefix_append_right_inj _ |>.mpr hmore), hused' more hmore]

theorem length_le (h : Passes goals ts next rest) : rest.length ≤ ts.length := by
  obtain ⟨used, rfl, -⟩ := h
  simp

theorem of_step {token : Token} (h : step goals token.kind = some next) :
    Passes goals (token :: rest) next rest := by
  refine ⟨[token], rfl, fun more _ => ?_⟩
  rw [List.singleton_append, kinds_cons, run, h, Option.bind_some]

theorem of_closed (h : Closed rest) : Passes (.arguments :: goals) rest goals rest := by
  refine ⟨[], rfl, fun more hmore => ?_⟩
  cases more with
  | nil => rfl
  | cons token more =>
      obtain ⟨later, rfl⟩ := hmore
      refine run_arguments_cons (fun hkind => ?_) goals (kinds more)
      obtain ⟨kind, text, start⟩ := token
      cases hkind
      exact h _ _ _ rfl

end Passes

/-- What an error says about some tokens and the goals in front of them. -/
def Faults (goals : List Goal) (ts : List Token) : TypeTextError → Prop
  | .unexpected found offset _ => ∃ before token after, ts = before ++ token :: after ∧
      token.text = found ∧ token.start = offset ∧ (run goals (kinds before)).isSome ∧
      run goals (kinds (before ++ [token])) = none
  | .unexpectedEnd _ => ∃ left, run goals (kinds ts) = some left ∧ left ≠ []
  | _ => True

theorem Passes.faults {goals next : List Goal} {ts rest : List Token} (h : Passes goals ts next rest)
    {e : TypeTextError} (he : Faults next rest e) : Faults goals ts e := by
  obtain ⟨used, rfl, hused⟩ := h
  cases e with
  | unexpected found offset wanted =>
      obtain ⟨before, token, after, rfl, hfound, hoffset, hviable, hmiss⟩ := he
      refine ⟨used ++ before, token, after, (List.append_assoc _ _ _).symm, hfound, hoffset, ?_, ?_⟩
      · rwa [hused _ (List.prefix_append _ _)]
      · rw [List.append_assoc, hused _ ⟨after, by simp⟩, hmiss]
  | unexpectedEnd wanted =>
      obtain ⟨left, hleft, hne⟩ := he
      exact ⟨left, by rwa [hused _ (List.prefix_refl _)], hne⟩
  | _ => trivial

/-- A parser that goes from some goals to others: it passes the tokens in between, or faults. -/
def Follows {α : Type} (rest : α → List Token) (goals : List Goal) (ts : List Token)
    (next : List Goal) : Except TypeTextError α → Prop
  | .ok a => Passes goals ts next (rest a)
  | .error e => Faults goals ts e

namespace Follows

variable {α β : Type} {rest : α → List Token} {rest' : β → List Token}
  {goals mid next : List Goal} {ts left : List Token}

theorem after {r : Except TypeTextError α} (h : Passes goals ts mid left)
    (hr : Follows rest mid left next r) : Follows rest goals ts next r := by
  cases r with
  | ok a => exact h.trans hr
  | error e => exact h.faults hr

theorem bind {x : Except TypeTextError α} {f : α → Except TypeTextError β}
    (hx : Follows rest goals ts mid x)
    (hf : ∀ a, (rest a).length ≤ ts.length → Follows rest' mid (rest a) next (f a)) :
    Follows rest' goals ts next (x >>= f) := by
  cases x with
  | ok a => exact after hx (hf a hx.length_le)
  | error e => exact hx

theorem complain {wanted : Wanted} (hmiss : ∀ token after, ts = token :: after →
      step goals token.kind = none) (hend : ts = [] → settle goals ≠ []) :
    Follows rest goals ts next (.error (complain wanted ts)) := by
  cases ts with
  | nil => exact ⟨_, rfl, hend rfl⟩
  | cons token after =>
      refine ⟨[], token, after, rfl, rfl, rfl, rfl, ?_⟩
      rw [List.nil_append, kinds_cons, run, hmiss token after rfl]
      rfl

theorem expect (kind : TokenKind) (wanted : Wanted) (goals : List Goal) (ts : List Token) :
    Follows id (.token kind :: goals) ts goals (expect kind wanted ts) := by
  cases ts with
  | nil => exact ⟨_, rfl, List.cons_ne_nil _ _⟩
  | cons token after =>
      rw [TypeText.expect]
      split
      · rename_i hkind
        exact .of_step ((step_token _ _ _).trans (if_pos hkind))
      · rename_i hkind
        refine complain (fun t later heq => ?_) fun _ => List.cons_ne_nil _ _
        cases heq
        exact (step_token _ _ _).trans (if_neg hkind)

theorem expectBraces (goals : List Goal) (ts : List Token) :
    Follows id (.token .braceOpen :: .token .braceClose :: goals) ts goals (expectBraces ts) :=
  (expect _ _ _ ts).bind fun left _ => expect _ _ _ left

/-- What a name or a length is found to be, with tokens or without, does not move the parser. -/
theorem arrayLength (text : String) (goals : List Goal) (ts : List Token) :
    Follows (fun _ => ts) goals ts goals (arrayLength text) := by
  unfold TypeText.arrayLength
  simp only
  split
  · exact .refl _ _
  · trivial

theorem resolveName (text : String) (args : List SourceType) (goals : List Goal) (ts : List Token) :
    Follows (fun _ => ts) goals ts goals (resolveName text args) := by
  unfold TypeText.resolveName
  split
  · exact .refl _ _
  · split
    · exact .refl _ _
    · split
      · trivial
      · exact .refl _ _

end Follows

/-- The three parsers with a given amount of fuel and no more tokens than that. -/
structure Guided (fuel : Nat) : Prop where
  type : ∀ goals ts, ts.length ≤ fuel →
    Follows Prod.snd (.type :: goals) ts goals (parseType fuel ts)
  args : ∀ goals ts, ts.length ≤ fuel →
    Follows Prod.snd (.arguments :: goals) ts goals (parseArgs fuel ts)
  moreArgs : ∀ goals ts, ts.length ≤ fuel →
    Follows Prod.snd (.moreArguments :: goals) ts goals (parseMoreArgs fuel ts)

namespace Guided

variable {fuel : Nat}

theorem argList (h : Guided fuel) (goals : List Goal) {ts : List Token} (hfuel : ts.length ≤ fuel) :
    Follows Prod.snd (.type :: .moreArguments :: goals) ts goals (parseArgList fuel ts) := by
  refine (h.type _ ts hfuel).bind fun first hfirst => ?_
  exact (h.moreArgs _ _ (hfirst.trans hfuel)).bind fun others _ => .refl _ _

theorem bracket (h : Guided fuel) (goals : List Goal) (a : String) (i : Nat) {ts : List Token}
    (hfuel : ts.length ≤ fuel) :
    Follows Prod.snd (.lengthOrClose :: goals) ts goals
      (parseType (fuel + 1) (⟨.bracketOpen, a, i⟩ :: ts)) := by
  simp only [parseType]
  split
  · rename_i b j elems
    have hshorter : elems.length ≤ fuel := (Nat.le_succ _).trans hfuel
    have hclose : Passes (.lengthOrClose :: goals) (⟨.bracketClose, b, j⟩ :: elems)
      (.type :: goals) elems := .of_step rfl
    exact .after hclose ((h.type _ _ hshorter).bind fun elem _ => .refl _ _)
  · rename_i text j left
    have hshorter : left.length ≤ fuel := (Nat.le_succ _).trans hfuel
    have hint : Passes (.lengthOrClose :: goals) (⟨.int, text, j⟩ :: left)
      (.token .bracketClose :: .type :: goals) left := .of_step rfl
    refine .after hint ((Follows.arrayLength text _ left).bind fun length _ => ?_)
    refine (Follows.expect _ _ _ left).bind fun elems helems => ?_
    exact (h.type _ _ (helems.trans hshorter)).bind fun elem _ => .refl _ _
  · rename_i hclose hint
    refine .complain (fun token after heq => ?_) fun _ => List.cons_ne_nil _ _
    subst heq
    obtain ⟨kind, text, start⟩ := token
    cases kind with
    | bracketClose => exact absurd rfl (hclose _ _ _)
    | int => exact absurd rfl (hint _ _ _)
    | _ => rfl

theorem type_succ (h : Guided fuel) (goals : List Goal) {ts : List Token}
    (hfuel : ts.length ≤ fuel + 1) :
    Follows Prod.snd (.type :: goals) ts goals (parseType (fuel + 1) ts) := by
  cases ts with
  | nil => exact ⟨_, rfl, List.cons_ne_nil _ _⟩
  | cons token ts =>
      have hshorter : ts.length ≤ fuel := Nat.le_of_succ_le_succ hfuel
      obtain ⟨kind, text, start⟩ := token
      cases kind with
      | star =>
          refine .after (.of_step rfl) ((h.type goals ts hshorter).bind fun elem _ => .refl _ _)
      | bracketOpen => exact .after (.of_step rfl) (h.bracket goals text start hshorter)
      | kwMap =>
          refine .after (.of_step rfl) ((Follows.expect _ _ _ ts).bind fun left hleft => ?_)
          refine (h.type _ left (hleft.trans hshorter)).bind fun key hkey => ?_
          refine (Follows.expect _ _ _ key.2).bind fun left' hleft' => ?_
          exact (h.type _ left' (hleft'.trans (hkey.trans (hleft.trans hshorter)))).bind
            fun value _ => .refl _ _
      | kwChan =>
          refine .after (.of_step rfl) ((h.type goals ts hshorter).bind fun elem _ => .refl _ _)
      | kwInterface =>
          exact .after (.of_step rfl) ((Follows.expectBraces goals ts).bind fun left _ => .refl _ _)
      | kwStruct =>
          exact .after (.of_step rfl) ((Follows.expectBraces goals ts).bind fun left _ => .refl _ _)
      | name =>
          refine .after (.of_step rfl) ((h.args goals ts hshorter).bind fun args _ => ?_)
          exact (Follows.resolveName text args.1 _ _).bind fun type _ => .refl _ _
      | _ =>
          refine .complain (fun token after heq => ?_) fun _ => List.cons_ne_nil _ _
          cases heq
          rfl

theorem args_nil (fuel : Nat) (goals : List Goal) {ts : List Token} (h : Closed ts) :
    Follows Prod.snd (.arguments :: goals) ts goals (parseArgs fuel ts) := by
  rw [parseArgs_of_closed h]
  exact Passes.of_closed h

theorem moreArgs_end (fuel : Nat) (goals : List Goal) {ts : List Token}
    (h : ∀ text start rest, ts ≠ ⟨.comma, text, start⟩ :: rest) :
    Follows Prod.snd (.moreArguments :: goals) ts goals (parseMoreArgs fuel ts) := by
  rw [parseMoreArgs.eq_def]
  split
  · exact absurd rfl (h _ _ _)
  · exact .of_step rfl
  · rename_i hclose _
    refine Follows.complain (fun token after heq => ?_) fun _ => List.cons_ne_nil _ _
    subst heq
    obtain ⟨kind, text, start⟩ := token
    cases kind with
    | comma => exact absurd rfl (h _ _ _)
    | bracketClose => exact absurd rfl (hclose _ _ _)
    | _ => rfl

/-- Every call takes a token and a unit of fuel from the calls that it makes. -/
theorem all (fuel : Nat) : Guided fuel := by
  induction fuel with
  | zero =>
      refine ⟨fun goals ts hfuel => ?_, fun goals ts hfuel => ?_, fun goals ts hfuel => ?_⟩
      all_goals obtain rfl := List.length_eq_zero_iff.mp (Nat.le_zero.mp hfuel)
      · exact ⟨_, rfl, List.cons_ne_nil _ _⟩
      · exact args_nil 0 goals closed_nil
      · exact moreArgs_end 0 goals nofun
  | succ fuel ih =>
      refine ⟨fun goals ts hfuel => ih.type_succ goals hfuel, fun goals ts hfuel => ?_,
        fun goals ts hfuel => ?_⟩
      · by_cases hclosed : Closed ts
        · exact args_nil _ goals hclosed
        · simp only [Closed, not_forall, not_not] at hclosed
          obtain ⟨text, start, rest, rfl⟩ := hclosed
          rw [parseArgs_open]
          exact .after (.of_step rfl) (ih.argList goals (Nat.le_of_succ_le_succ hfuel))
      · by_cases hcomma : ∀ text start rest, ts ≠ ⟨.comma, text, start⟩ :: rest
        · exact moreArgs_end _ goals hcomma
        · simp only [not_forall, not_not] at hcomma
          obtain ⟨text, start, rest, rfl⟩ := hcomma
          rw [parseMoreArgs_comma]
          exact .after (.of_step rfl) (ih.argList goals (Nat.le_of_succ_le_succ hfuel))

end Guided

theorem follows_parseTokens (ts : List Token) :
    Follows (fun _ => []) [.type] ts [] (parseTokens ts) := by
  refine ((Guided.all ts.length).type [] ts le_rfl).bind fun read _ => ?_
  obtain ⟨type, rest⟩ := read
  cases rest with
  | nil => exact .refl _ _
  | cons token rest => exact Follows.complain (fun _ _ _ => rfl) fun h => absurd h (List.cons_ne_nil _ _)

/-- The kinds of a type meet the goal of a type to the end, since the parser takes them for one. -/
theorem run_of_accepted {ks : List TokenKind} (h : Accepted ks) : run [.type] ks = some [] := by
  obtain ⟨ls, t, ht, rfl⟩ := h
  have hplaced : (ls.map fun l => (⟨l.kind, l.text, 0⟩ : Token)).map Token.lexeme = ls := by
    simp [Function.comp_def, Token.lexeme]
  have hkinds : kinds (ls.map fun l => (⟨l.kind, l.text, 0⟩ : Token)) = ls.map Lexeme.kind := by
    simp [kinds]
  rw [← hplaced, ← parseTokens_eq_ok_iff] at ht
  have hfollows := follows_parseTokens (ls.map fun l => (⟨l.kind, l.text, 0⟩ : Token))
  rw [ht] at hfollows
  obtain ⟨used, hused, hrun⟩ := hfollows
  rw [← hkinds, hused]
  exact hrun [] (List.prefix_refl _)

theorem isSome_run_of_append {goals : List Goal} {ks more : List TokenKind}
    (h : (run goals (ks ++ more)).isSome) : (run goals ks).isSome := by
  induction ks generalizing goals with
  | nil => rfl
  | cons k ks ih =>
      rw [List.cons_append, run] at h
      rw [run]
      cases hstep : step goals k with
      | none =>
          rw [hstep] at h
          cases h
      | some new =>
          rw [hstep] at h
          exact ih h

/-- Some tokens can be extended to a type exactly when none of them misses its goal. -/
theorem exists_accepted_iff {ks : List TokenKind} :
    (∃ more, Accepted (ks ++ more)) ↔ (run [.type] ks).isSome := by
  constructor
  · rintro ⟨more, hmore⟩
    have hrun : (run [.type] (ks ++ more)).isSome := by rw [run_of_accepted hmore]; rfl
    exact isSome_run_of_append hrun
  · intro h
    obtain ⟨left, hleft⟩ := Option.isSome_iff_exists.mp h
    obtain ⟨more, hmore⟩ := exists_meets_of_run hleft
    exact ⟨more, meets_singleton_iff.mp hmore⟩

/-! ### Where errors point -/

/-- An error at a token points at the first one that no type has at its place: what stands before it
can be extended to a type, and with it no more. An error at the end of the text means that the tokens
are no type yet, but can be extended to one. -/
theorem parse_error_points_at_first_fault (s : String) {ts : List Token} (hts : tokens s = .ok ts) :
    (∀ found offset wanted, parse s = .error (.unexpected found offset wanted) →
      ∃ i token, ts[i]? = some token ∧ token.text = found ∧ token.start = offset ∧
        (∃ front back, s = front ++ found ++ back ∧ Text.byteLength front.toList = offset) ∧
        (∃ more, Accepted (kinds (ts.take i) ++ more)) ∧
        ¬∃ more, Accepted (kinds (ts.take (i + 1)) ++ more)) ∧
    ∀ wanted, parse s = .error (.unexpectedEnd wanted) →
      ¬Accepted (kinds ts) ∧ ∃ more, Accepted (kinds ts ++ more) := by
  have hparse : parse s = parseTokens ts := by
    rw [parse, hts]
    rfl
  have hfollows := follows_parseTokens ts
  rw [hparse]
  constructor
  · intro found offset wanted herror
    rw [herror] at hfollows
    obtain ⟨before, token, after, rfl, rfl, rfl, hviable, hmiss⟩ := hfollows
    have hmem : token ∈ before ++ token :: after := by simp
    obtain ⟨front, back, hsplit, hstart⟩ := exists_split_of_mem_scan hts hmem
    refine ⟨before.length, token, by simp, rfl, rfl, ?_, ?_, ?_⟩
    · refine ⟨String.ofList front, String.ofList back, ?_, ?_⟩
      · rw [← String.toList_inj, hsplit]
        simp
      · rw [hstart, String.toList_ofList, Nat.zero_add]
    · rw [exists_accepted_iff, List.take_left]
      exact hviable
    · have htake : (before ++ token :: after).take (before.length + 1) = before ++ [token] := by
        rw [List.append_cons]
        exact List.take_left' (by simp)
      rw [exists_accepted_iff, htake, hmiss]
      exact Bool.false_ne_true
  · intro wanted herror
    rw [herror] at hfollows
    obtain ⟨left, hleft, hne⟩ := hfollows
    refine ⟨fun haccepted => hne ?_, exists_accepted_iff.mpr (by rw [hleft]; rfl)⟩
    rw [run_of_accepted haccepted] at hleft
    exact (Option.some.inj hleft).symm

/-- Type arguments without the comma between them. -/
def pairTokens : List Token :=
  [⟨.name, "Pair", 0⟩, ⟨.bracketOpen, "[", 4⟩, ⟨.name, "string", 5⟩, ⟨.kwMap, "map", 12⟩,
   ⟨.bracketOpen, "[", 15⟩, ⟨.name, "int", 16⟩, ⟨.bracketClose, "]", 19⟩, ⟨.name, "bool", 20⟩,
   ⟨.bracketClose, "]", 24⟩]

theorem parse_error_points_at_first_fault_pair :
    (parse "Pair[string map[int]bool]" = .error (.unexpected "map" 12 .commaOrClose) ∧
      ∃ i token, pairTokens[i]? = some token ∧ token.text = "map" ∧ token.start = 12 ∧
        (∃ more, Accepted (kinds (pairTokens.take i) ++ more)) ∧
        ¬∃ more, Accepted (kinds (pairTokens.take (i + 1)) ++ more)) ∧
    parse "Pair[string" = .error (.unexpectedEnd .commaOrClose) ∧
      ¬Accepted (kinds (pairTokens.take 3)) ∧
      ∃ more, Accepted (kinds (pairTokens.take 3) ++ more) := by
  have htokens : tokens "Pair[string map[int]bool]" = .ok pairTokens := by decide +kernel
  have herror : parse "Pair[string map[int]bool]" = .error (.unexpected "map" 12 .commaOrClose) := by
    rw [parse, htokens]
    rfl
  have htokens' : tokens "Pair[string" = .ok (pairTokens.take 3) := by decide +kernel
  have herror' : parse "Pair[string" = .error (.unexpectedEnd .commaOrClose) := by
    rw [parse, htokens']
    rfl
  obtain ⟨i, token, hi, htext, hstart, -, hviable⟩ :=
    (parse_error_points_at_first_fault _ htokens).1 _ _ _ herror
  exact ⟨⟨herror, i, token, hi, htext, hstart, hviable⟩, herror',
    (parse_error_points_at_first_fault _ htokens').2 _ herror'⟩

end TypeBridge.TypeText
