import TypeBridge.Proofs.Text
import TypeBridge.Proofs.TypeGrammar

/-!
Scanning a text in parts. Spaces are dropped one by one, and a text that is cut where no lexeme
continues has the tokens of its two parts. So spaces between tokens may be put in and taken out
without any effect on the lexemes, and therefore on the type that a text denotes.
-/

namespace TypeBridge.TypeText

open Text (byteLength byteLength_append byteLength_pos)

/-! ### One lexeme -/

theorem scan_garbage {c : Char} (h : Start.of? c = none) (offset : Nat) (rest : List Char) :
    scan offset (c :: rest) = .error (.garbage offset) := by
  rw [scan, h]

/-- The token of the lexeme at the front, and the tokens after it. -/
theorem scan_lexeme {c : Char} {start : Start} {kind : TokenKind} {rest : List Char}
    (h : Start.of? c = some start) (hkind : start.kind? (c :: rest.takeWhile start.continues) = some kind)
    (offset : Nat) :
    scan offset (c :: rest) =
      (scan (offset + byteLength (c :: rest.takeWhile start.continues))
        (rest.dropWhile start.continues)).map
          (⟨kind, String.ofList (c :: rest.takeWhile start.continues), offset⟩ :: ·) := by
  rw [scan, h]
  simp only [hkind]
  split <;> simp_all [Except.map]

theorem Start.of?_of_isSpace {c : Char} (h : isSpace c = true) : Start.of? c = some .space := by
  rw [Start.of?, if_pos h]

theorem scan_spaces {c : Char} (h : isSpace c = true) (offset : Nat) (rest : List Char) :
    scan offset (c :: rest) =
      scan (offset + byteLength (c :: rest.takeWhile isSpace)) (rest.dropWhile isSpace) := by
  have hrun : Start.space.continues = isSpace := rfl
  rw [scan, Start.of?_of_isSpace h]
  simp only [hrun, Start.kind?]
  cases scan (offset + byteLength (c :: rest.takeWhile isSpace)) (rest.dropWhile isSpace) <;> rfl

/-- Spaces are dropped one by one. -/
theorem scan_space {c : Char} (h : isSpace c = true) (offset : Nat) (rest : List Char) :
    scan offset (c :: rest) = scan (offset + c.utf8Size) rest := by
  rw [scan_spaces h]
  cases rest with
  | nil => rfl
  | cons d rest =>
      by_cases hd : isSpace d = true
      · rw [scan_spaces hd, List.takeWhile_cons_of_pos hd, List.dropWhile_cons_of_pos hd]
        simp only [byteLength, Nat.add_assoc]
      · rw [List.takeWhile_cons_of_neg hd, List.dropWhile_cons_of_neg hd]
        rfl

/-- Every lexeme but spaces makes a token. -/
theorem Start.exists_kind {start : Start} (h : start ≠ .space) (lexeme : List Char) :
    ∃ kind, start.kind? lexeme = some kind := by
  cases start with
  | space => exact absurd rfl h
  | mark kind => exact ⟨kind, rfl⟩
  | digit => exact ⟨.int, rfl⟩
  | letter => exact ⟨wordKind lexeme, rfl⟩

/-- What starts a lexeme: nothing, a space, or a token. -/
theorem Start.of?_cases (c : Char) : Start.of? c = none ∨ isSpace c = true ∨
    ∃ start, Start.of? c = some start ∧ start ≠ .space := by
  by_cases hspace : isSpace c = true
  · exact .inr (.inl hspace)
  · cases hstart : Start.of? c with
    | none => exact .inl rfl
    | some start =>
        refine .inr (.inr ⟨start, rfl, ?_⟩)
        rintro rfl
        rw [Start.of?, if_neg hspace] at hstart
        split at hstart
        · cases hstart
        · split at hstart
          · cases hstart
          · simp at hstart

/-- Texts are scanned lexeme by lexeme, and spaces one by one. -/
theorem scan_induction {P : List Char → Prop} (nil : P [])
    (garbage : ∀ c rest, Start.of? c = none → P (c :: rest))
    (space : ∀ c rest, isSpace c = true → P rest → P (c :: rest))
    (lexeme : ∀ c rest start, Start.of? c = some start → start ≠ .space →
      P (rest.dropWhile start.continues) → P (c :: rest)) (cs : List Char) : P cs := by
  induction hlength : cs.length using Nat.strong_induction_on generalizing cs with
  | _ n ih =>
      subst hlength
      cases cs with
      | nil => exact nil
      | cons c rest =>
          rcases Start.of?_cases c with hnone | hspace | ⟨start, hstart, hne⟩
          · exact garbage c rest hnone
          · exact space c rest hspace (ih _ (Nat.lt_succ_self _) rest rfl)
          · have hshorter : (rest.dropWhile start.continues).length < (c :: rest).length :=
              Nat.lt_succ_of_le (List.dropWhile_sublist _).length_le
            exact lexeme c rest start hstart hne (ih _ hshorter _ rfl)

/-- Lexemes do not depend on the place where scanning starts. -/
theorem exists_scan_at {offset : Nat} {cs : List Char} {ts : List Token}
    (h : scan offset cs = .ok ts) (offset' : Nat) :
    ∃ ts', scan offset' cs = .ok ts' ∧ ts'.map Token.lexeme = ts.map Token.lexeme := by
  induction cs using scan_induction generalizing ts offset offset' with
  | nil =>
      rw [scan] at h
      cases h
      exact ⟨[], by rw [scan], rfl⟩
  | garbage c rest hnone =>
      rw [scan_garbage hnone] at h
      cases h
  | space c rest hspace ih =>
      rw [scan_space hspace] at h ⊢
      exact ih h _
  | lexeme c rest start hstart hne ih =>
      obtain ⟨kind, hkind⟩ := start.exists_kind hne (c :: rest.takeWhile start.continues)
      rw [scan_lexeme hstart hkind] at h ⊢
      obtain ⟨later, hlater, rfl⟩ := map_eq_ok_iff.mp h
      obtain ⟨later', hlater', hsame⟩ := ih hlater _
      refine ⟨_, map_eq_ok_iff.mpr ⟨later', hlater', rfl⟩, ?_⟩
      rw [List.map_cons, List.map_cons, hsame]
      rfl

/-- A token stands in the text at its offset. -/
theorem exists_split_of_mem_scan {offset : Nat} {cs : List Char} {ts : List Token} {t : Token}
    (h : scan offset cs = .ok ts) (ht : t ∈ ts) :
    ∃ front back, cs = front ++ (t.text.toList ++ back) ∧
      t.start = offset + byteLength front := by
  induction cs using scan_induction generalizing offset ts with
  | nil =>
      rw [scan] at h
      cases h
      cases ht
  | garbage c rest hnone =>
      rw [scan_garbage hnone] at h
      cases h
  | space c rest hspace ih =>
      rw [scan_space hspace] at h
      obtain ⟨front, back, rfl, hstart⟩ := ih h ht
      exact ⟨c :: front, back, rfl, by rw [hstart, byteLength, Nat.add_assoc]⟩
  | lexeme c rest start hstart hne ih =>
      obtain ⟨kind, hkind⟩ := start.exists_kind hne (c :: rest.takeWhile start.continues)
      rw [scan_lexeme hstart hkind] at h
      obtain ⟨later, hlater, rfl⟩ := map_eq_ok_iff.mp h
      have hrest : c :: rest =
          (c :: rest.takeWhile start.continues) ++ rest.dropWhile start.continues := by
        rw [List.cons_append, List.takeWhile_append_dropWhile]
      rcases List.mem_cons.mp ht with rfl | ht
      · refine ⟨[], rest.dropWhile start.continues, ?_, rfl⟩
        rw [hrest, List.nil_append, String.toList_ofList]
      · obtain ⟨front, back, hsplit, hplace⟩ := ih hlater ht
        refine ⟨(c :: rest.takeWhile start.continues) ++ front, back, ?_, ?_⟩
        · rw [hrest, hsplit, List.append_assoc]
        · rw [hplace, byteLength_append, Nat.add_assoc]

/-! ### A text in two parts -/

theorem takeWhile_append_of_ends {p : Char → Bool} {front : List Char} (h : front.dropWhile p ≠ [])
    (back : List Char) : (front ++ back).takeWhile p = front.takeWhile p := by
  have hlength := congrArg List.length (List.takeWhile_append_dropWhile (p := p) (l := front))
  have hpos := List.length_pos_iff.mpr h
  rw [List.length_append] at hlength
  rw [List.takeWhile_append, if_neg (by omega)]

theorem dropWhile_append_of_ends {p : Char → Bool} {front : List Char} (h : front.dropWhile p ≠ [])
    (back : List Char) : (front ++ back).dropWhile p = front.dropWhile p ++ back := by
  rw [List.dropWhile_append, if_neg (by simpa using h)]

/-- The place after a lexeme and what follows it is the place after both. -/
theorem byteLength_lexeme (p : Char → Bool) (offset : Nat) (c : Char) (front : List Char) :
    offset + byteLength (c :: front.takeWhile p) + byteLength (front.dropWhile p) =
      offset + byteLength (c :: front) := by
  rw [Nat.add_assoc, ← byteLength_append, List.cons_append, List.takeWhile_append_dropWhile]

/-- A cut of a text: it has the tokens of its front and then those of its back. -/
def Cut (offset : Nat) (front back : List Char) : Prop :=
  scan offset (front ++ back) =
    scan offset front >>= fun ts => (scan (offset + byteLength front) back).map (ts ++ ·)

namespace Cut

variable {offset : Nat} {c : Char} {start : Start} {front back : List Char}

theorem nil : Cut offset [] back := by
  rw [Cut, List.nil_append, scan]
  simp only [byteLength, Nat.add_zero, bind, Except.bind, List.nil_append]
  exact (congrFun Except.map_id _).symm

theorem garbage (h : Start.of? c = none) : Cut offset (c :: front) back := by
  rw [Cut, List.cons_append, scan_garbage h, scan_garbage h]
  rfl

theorem space (h : isSpace c = true) (hcut : Cut (offset + c.utf8Size) front back) :
    Cut offset (c :: front) back := by
  rw [Cut, List.cons_append, scan_space h, scan_space h, hcut, byteLength, Nat.add_assoc]

/-- A lexeme that ends inside the front. -/
theorem inside (h : Start.of? c = some start) (hstart : start ≠ .space)
    (hends : front.dropWhile start.continues ≠ [])
    (hcut : Cut (offset + byteLength (c :: front.takeWhile start.continues))
      (front.dropWhile start.continues) back) : Cut offset (c :: front) back := by
  have htake := takeWhile_append_of_ends hends back
  have hdrop := dropWhile_append_of_ends hends back
  obtain ⟨kind, hkind⟩ := start.exists_kind hstart (c :: front.takeWhile start.continues)
  rw [Cut, List.cons_append, scan_lexeme h (htake ▸ hkind), scan_lexeme h hkind, htake, hdrop, hcut,
    byteLength_lexeme]
  cases scan (offset + byteLength (c :: front.takeWhile start.continues))
    (front.dropWhile start.continues) with
  | error e => rfl
  | ok ts =>
      cases scan (offset + byteLength (c :: front)) back <;> rfl

/-- A lexeme that ends with the front. -/
theorem atEnd (h : Start.of? c = some start) (hstart : start ≠ .space)
    (hall : ∀ d ∈ front, start.continues d = true) (hback : back.takeWhile start.continues = []) :
    Cut offset (c :: front) back := by
  have htake : (front ++ back).takeWhile start.continues = front := by
    rw [List.takeWhile_append_of_pos hall, hback, List.append_nil]
  have hdrop : (front ++ back).dropWhile start.continues = back := by
    have hparts : back.takeWhile start.continues ++ back.dropWhile start.continues = back :=
      List.takeWhile_append_dropWhile
    rw [hback, List.nil_append] at hparts
    rw [List.dropWhile_append_of_pos hall, hparts]
  have hself : front.takeWhile start.continues = front := List.takeWhile_eq_self_iff.mpr hall
  have hnil : front.dropWhile start.continues = [] := List.dropWhile_eq_nil_iff.mpr hall
  obtain ⟨kind, hkind⟩ := start.exists_kind hstart (c :: front)
  rw [Cut, List.cons_append, scan_lexeme h (htake.symm ▸ hkind), scan_lexeme h (hself.symm ▸ hkind),
    htake, hdrop, hself, hnil, scan]
  cases scan (offset + byteLength (c :: front)) back <;> rfl

end Cut

/-- Cuts are found lexeme by lexeme: it is enough to look at the one that reaches the cut. -/
theorem cut_induction {back : List Char} {P : Nat → List Char → Prop}
    (space : ∀ offset c front, isSpace c = true → P offset (c :: front) → P (offset + c.utf8Size) front)
    (inside : ∀ offset c front start, Start.of? c = some start → start ≠ .space →
      front.dropWhile start.continues ≠ [] → P offset (c :: front) →
      P (offset + byteLength (c :: front.takeWhile start.continues)) (front.dropWhile start.continues))
    (atEnd : ∀ offset c front start, Start.of? c = some start → start ≠ .space →
      (∀ d ∈ front, start.continues d = true) → P offset (c :: front) →
      back.takeWhile start.continues = [])
    {offset : Nat} {front : List Char} (h : P offset front) : Cut offset front back := by
  induction front using scan_induction generalizing offset with
  | nil => exact .nil
  | garbage c front hnone => exact .garbage hnone
  | space c front hspace ih => exact .space hspace (ih (space _ _ _ hspace h))
  | lexeme c front start hstart hne ih =>
      by_cases hends : front.dropWhile start.continues = []
      · have hall := List.dropWhile_eq_nil_iff.mp hends
        exact .atEnd hstart hne hall (atEnd _ _ _ _ hstart hne hall h)
      · exact .inside hstart hne hends (ih (inside _ _ _ _ hstart hne hends h))

/-- Nothing but spaces continues over a space. -/
theorem Start.takeWhile_space {start : Start} (hstart : start ≠ .space) {c : Char}
    (h : isSpace c = true) (rest : List Char) : (c :: rest).takeWhile start.continues = [] := by
  refine List.takeWhile_cons_of_neg ?_
  simp only [isSpace, Bool.or_eq_true, beq_iff_eq] at h
  cases start with
  | space => exact absurd rfl hstart
  | mark kind => exact Bool.false_ne_true
  | digit => rcases h with ((rfl | rfl) | rfl) | rfl <;> decide
  | letter => rcases h with ((rfl | rfl) | rfl) | rfl <;> decide

/-- A text may be cut in front of a space. -/
theorem cut_before_space {c : Char} (h : isSpace c = true) (front rest : List Char) (offset : Nat) :
    Cut offset front (c :: rest) :=
  cut_induction (P := fun _ _ => True) (fun _ _ _ _ _ => trivial)
    (fun _ _ _ _ _ _ _ _ => trivial)
    (fun _ _ _ _ _ hne _ _ => Start.takeWhile_space hne h rest) trivial

end TypeBridge.TypeText
