import BulletFarm.Text.Search
import BulletFarm.Worker.Python

/-!
# Replacement templates

`re.sub` reads its replacement as a template: a backslash begins an escape sequence or
a reference to a group of the match. A template in which every backslash stands before a
character of no meaning is its own expansion; no other one is.
-/

namespace BulletFarm.Python

set_option autoImplicit false

inductive Piece where
  | literal (c : Char)
  | group (index : Nat)
deriving DecidableEq, Repr

/-- Where in a template an error is found, as `re.error` prints it. -/
def located (message : String) (source : List Char) (pos : Nat) : Exc :=
  let line := (source.take pos).count '\n' + 1
  let column := ((source.take pos).reverse.takeWhile (· ≠ '\n')).length + 1
  ⟨.other, message ++ " at position " ++ toString pos ++
    if '\n' ∈ source then " (line " ++ toString line ++ ", column " ++ toString column ++ ")" else ""⟩

def isDigit (c : Char) : Bool := decide ('0' ≤ c ∧ c ≤ '9')

def isOctal (c : Char) : Bool := decide ('0' ≤ c ∧ c ≤ '7')

def isLetter (c : Char) : Bool := decide ('a' ≤ c ∧ c ≤ 'z' ∨ 'A' ≤ c ∧ c ≤ 'Z')

def digit (c : Char) : Nat := c.toNat - '0'.toNat

/-- `int(s, base)` of a string of digits. -/
def ofDigits (base : Nat) (s : List Char) : Nat := s.foldl (fun n c => base * n + digit c) 0

/-- `str.isidentifier`; every character beyond ASCII counts as a letter. -/
def isIdentifier (s : List Char) : Bool :=
  match s with
  | [] => false
  | c :: cs =>
    let start := fun c => isLetter c || c == '_' || decide (127 < c.toNat)
    start c && cs.all fun c => start c || isDigit c

/-- The characters up to the next `>`, which an escaped one is not. -/
def getUntil : List Char → Option (List Char × List Char)
  | [] => none
  | '\\' :: c :: x => (getUntil x).map fun q => ('\\' :: c :: q.1, q.2)
  | '>' :: x => some ([], x)
  | c :: x => (getUntil x).map fun q => (c :: q.1, q.2)

section Read
variable (groups : Nat) (source : List Char)

/-- A reference to a group that the pattern has. -/
def addGroup (index pos : Nat) (rest : List Char) : Except Exc (List Piece × List Char) :=
  if groups < index then
    .error (located ("invalid group reference " ++ toString index) source pos)
  else .ok ([.group index], rest)

/-- What follows `\g` at position `pos`. -/
def readGroupName (pos : Nat) : List Char → Except Exc (List Piece × List Char)
  | '<' :: rest =>
    match getUntil rest with
    | none =>
      if rest = [] then .error (located "missing group name" source source.length)
      else .error (located "missing >, unterminated name" source (pos + 3))
    | some ([], _) => .error (located "missing group name" source (pos + 3))
    | some (name, rest) =>
      if name.all isDigit then
        if 4300 < name.length then
          .error ⟨.other, "Exceeds the limit (4300 digits) for integer string conversion: value has " ++
            toString name.length ++ " digits; use sys.set_int_max_str_digits() to increase the limit"⟩
        else addGroup groups source (ofDigits 10 name) (pos + 3) rest
      else if isIdentifier name then
        .error ⟨.other, "unknown group name " ++ String.ofList (reprString (String.ofList name))⟩
      else
        .error (located ("bad character in group name " ++
          String.ofList (reprString (String.ofList name))) source (pos + 3))
  | _ => .error (located "missing <" source (pos + 2))

/-- What follows `\0`: up to two more octal digits. -/
def readOctal : List Char → List Piece × List Char
  | d :: e :: rest =>
    if isOctal d then
      if isOctal e then ([.literal (Char.ofNat (ofDigits 8 [d, e] % 256))], rest)
      else ([.literal (Char.ofNat (ofDigits 8 [d]))], e :: rest)
    else ([.literal (Char.ofNat 0)], d :: e :: rest)
  | [d] => if isOctal d then ([.literal (Char.ofNat (ofDigits 8 [d]))], []) else ([.literal (Char.ofNat 0)], [d])
  | [] => ([.literal (Char.ofNat 0)], [])

/-- What follows a backslash and a digit other than zero: a group, or three octal digits. -/
def readDigits (pos : Nat) (c : Char) : List Char → Except Exc (List Piece × List Char)
  | d :: rest =>
    if !isDigit d then addGroup groups source (digit c) (pos + 1) (d :: rest)
    else
      match rest with
      | e :: rest' =>
        if isOctal c && isOctal d && isOctal e then
          if 0o377 < ofDigits 8 [c, d, e] then
            .error (located ("octal escape value " ++ String.ofList ['\\', c, d, e] ++
              " outside of range 0-0o377") source pos)
          else .ok ([.literal (Char.ofNat (ofDigits 8 [c, d, e]))], rest')
        else addGroup groups source (ofDigits 10 [c, d]) (pos + 1) rest
      | [] => addGroup groups source (ofDigits 10 [c, d]) (pos + 1) rest
  | [] => addGroup groups source (digit c) (pos + 1) []

def escapes : List (Char × Nat) :=
  [('a', 7), ('b', 8), ('f', 12), ('n', 10), ('r', 13), ('t', 9), ('v', 11), ('\\', 92)]

/-- The escape sequence of a backslash and `c` at position `pos`, and what follows it. -/
def readEscape (pos : Nat) (c : Char) (rest : List Char) : Except Exc (List Piece × List Char) :=
  if c = 'g' then readGroupName groups source pos rest
  else if c = '0' then .ok (readOctal rest)
  else if isDigit c then readDigits groups source pos c rest
  else
    match escapes.lookup c with
    | some n => .ok ([.literal (Char.ofNat n)], rest)
    | none =>
      if isLetter c then
        .error (located ("bad escape " ++ String.ofList ['\\', c]) source pos)
      else .ok ([.literal '\\', .literal c], rest)

/-- The pieces of what is left of a template. No backslash stands at the end of one here. -/
def readFrom : Nat → List Char → Except Exc (List Piece)
  | 0, _ => .ok []
  | _ + 1, [] => .ok []
  | fuel + 1, '\\' :: c :: rest =>
    match readEscape groups source (source.length - (rest.length + 2)) c rest with
    | .error e => .error e
    | .ok (pieces, rest') => (readFrom fuel rest').map (pieces ++ ·)
  | fuel + 1, c :: rest => (readFrom fuel rest).map (.literal c :: ·)

def parseTemplate : Except Exc (List Piece) := readFrom groups source source.length source

end Read

/-- A template with the groups of a match put in. -/
def expand (group : Nat → List Char) (pieces : List Piece) : List Char :=
  pieces.flatMap fun
    | .literal c => [c]
    | .group index => group index

/-! ## Templates that mean themselves -/

/-- A backslash before this character has a meaning. -/
def Special (c : Char) : Prop := isLetter c = true ∨ isDigit c = true ∨ c = '\\'

/-- Every backslash stands before a character of no meaning. -/
def Inert : List Char → Prop
  | '\\' :: c :: rest => ¬ Special c ∧ Inert rest
  | _ :: rest => Inert rest
  | [] => True

/-- The characters that an escape sequence of octal digits is written with, and the backslash. -/
def Mark (c : Char) : Prop := c = '\\' ∨ isOctal c = true

/-- What an escape sequence stands for. -/
inductive Escape (groups : Nat) (c : Char) (rest : List Char) : List Piece → List Char → Prop where
  | kept : ¬ Special c → Escape groups c rest [.literal '\\', .literal c] rest
  | control {e : Char} : ¬ Mark e → Special c → Escape groups c rest [.literal e] rest
  | octal {e : Char} {used rest' : List Char} : (∀ d ∈ c :: used, Mark d) → rest = used ++ rest' →
      Escape groups c rest [.literal e] rest'
  | group {index : Nat} {rest' : List Char} : index ≤ groups → Special c →
      Escape groups c rest [.group index] rest'

section Escapes
variable {groups : Nat} {source rest rest' rest₁ : List Char} {pieces : List Piece} {pos : Nat} {c : Char}

theorem Special.of_digit (h : isDigit c = true) : Special c := Or.inr (Or.inl h)

theorem Mark.special (h : Mark c) : Special c := by
  rcases h with rfl | h
  · exact Or.inr (Or.inr rfl)
  · obtain ⟨hzero, hseven⟩ := of_decide_eq_true h
    have hnine : '7' ≤ '9' := by decide
    exact .of_digit (decide_eq_true ⟨hzero, Char.le_trans hseven hnine⟩)

theorem addGroup_escape {index : Nat} (hc : Special c)
    (h : addGroup groups source index pos rest₁ = .ok (pieces, rest')) :
    Escape groups c rest pieces rest' := by
  unfold addGroup at h
  split at h
  · cases h
  · next hindex =>
    cases h
    exact .group (by omega) hc

theorem readGroupName_escape (h : readGroupName groups source pos rest = .ok (pieces, rest')) :
    Escape groups 'g' rest pieces rest' := by
  have hg : Special 'g' := Or.inl (by decide)
  unfold readGroupName at h
  split at h
  · split at h
    · split at h <;> cases h
    · cases h
    · split at h
      · split at h
        · cases h
        · exact addGroup_escape hg h
      · split at h <;> cases h
  · cases h

theorem readOctal_escape (rest : List Char) :
    Escape groups '0' rest (readOctal rest).1 (readOctal rest).2 := by
  have hzero : Mark '0' := Or.inr (by decide)
  have hnone : ∀ d ∈ ['0'], Mark d := by simpa using hzero
  unfold readOctal
  split
  · next d e rest =>
    split
    · next hd =>
      have hone : ∀ x ∈ ['0', d], Mark x := by simpa using ⟨hzero, Or.inr hd⟩
      split
      · next he =>
        refine @Escape.octal _ _ _ _ [d, e] _ ?_ rfl
        simpa using ⟨hzero, Or.inr hd, Or.inr he⟩
      · exact .octal hone rfl
    · exact .octal hnone rfl
  · next d =>
    split
    · next hd =>
      refine @Escape.octal _ _ _ _ [d] _ ?_ rfl
      simpa using ⟨hzero, Or.inr hd⟩
    · exact .octal hnone rfl
  · exact .octal hnone rfl

theorem readDigits_escape (hc : isDigit c = true)
    (h : readDigits groups source pos c rest = .ok (pieces, rest')) :
    Escape groups c rest pieces rest' := by
  have hspecial : Special c := .of_digit hc
  unfold readDigits at h
  split at h
  · next d rest =>
    split at h
    · exact addGroup_escape hspecial h
    · split at h
      · next e rest =>
        split at h
        · next hoctal =>
          split at h
          · cases h
          · cases h
            simp only [Bool.and_eq_true] at hoctal
            refine @Escape.octal _ _ _ _ [d, e] _ ?_ rfl
            simpa using ⟨Or.inr hoctal.1.1, Or.inr hoctal.1.2, Or.inr hoctal.2⟩
        · exact addGroup_escape hspecial h
      · exact addGroup_escape hspecial h
  · exact addGroup_escape hspecial h

/-- A letter stands for a control character. -/
theorem escapes_meaning : ∀ q ∈ escapes,
    (¬ Mark (Char.ofNat q.2) ∧ isLetter q.1 = true) ∨ q = ('\\', 92) := by
  unfold Mark
  decide

theorem readEscape_escape (h : readEscape groups source pos c rest = .ok (pieces, rest')) :
    Escape groups c rest pieces rest' := by
  unfold readEscape at h
  split at h
  · next hg =>
    subst hg
    exact readGroupName_escape h
  · split at h
    · next hzero =>
      subst hzero
      have hread := Except.ok.inj h
      have hoctal := @readOctal_escape groups rest
      rw [hread] at hoctal
      exact hoctal
    · split at h
      · next hdigit => exact readDigits_escape hdigit h
      · next hdigit =>
        split at h
        · next n hn =>
          cases h
          have hmem : (c, n) ∈ escapes := by
            obtain ⟨l₁, l₂, hl, _⟩ := List.lookup_eq_some_iff.mp hn
            exact hl ▸ List.mem_append_right l₁ List.mem_cons_self
          rcases escapes_meaning _ hmem with hcontrol | hbackslash
          · exact .control hcontrol.1 (Or.inl hcontrol.2)
          · cases hbackslash
            exact @Escape.octal _ _ _ _ [] _ (by simp [Mark]) rfl
        · next hn =>
          split at h
          · cases h
          · next hletter =>
            cases h
            refine .kept ?_
            rintro (hc | hc | rfl)
            · exact hletter hc
            · exact hdigit hc
            · cases hn

end Escapes

/-! ## The expansion of a template -/

section Expand
variable {groups fuel : Nat} {source s : List Char} {pieces : List Piece} {group : Nat → List Char}

@[simp] theorem expand_append (pieces pieces' : List Piece) :
    expand group (pieces ++ pieces') = expand group pieces ++ expand group pieces' :=
  List.flatMap_append

@[simp] theorem expand_nil : expand group [] = [] := rfl

@[simp] theorem expand_literal (c : Char) :
    expand group (.literal c :: pieces) = c :: expand group pieces := rfl

@[simp] theorem expand_group (index : Nat) :
    expand group (.group index :: pieces) = group index ++ expand group pieces := rfl

@[simp] theorem expand_literals (s : List Char) : expand group (s.map .literal) = s := by
  induction s with
  | nil => rfl
  | cons c s ih => rw [List.map_cons, expand_literal, ih]

theorem readEscape_kept {c : Char} (h : ¬ Special c) (pos : Nat) (rest : List Char) :
    readEscape groups source pos c rest = .ok ([.literal '\\', .literal c], rest) := by
  unfold Special at h
  push Not at h
  obtain ⟨hletter, hdigit, hbackslash⟩ := h
  unfold readEscape
  rw [if_neg, if_neg, if_neg hdigit]
  · cases hlookup : escapes.lookup c with
    | none => simp [hletter]
    | some n =>
      obtain ⟨l₁, l₂, hl, _⟩ := List.lookup_eq_some_iff.mp hlookup
      have hmem : (c, n) ∈ escapes := hl ▸ List.mem_append_right l₁ List.mem_cons_self
      rcases escapes_meaning _ hmem with hcontrol | hsame
      · exact absurd hcontrol.2 hletter
      · exact absurd (Prod.ext_iff.mp hsame).1 hbackslash
  · rintro rfl
    exact hdigit (by decide)
  · rintro rfl
    exact hletter (by decide)

theorem inert_cons {c : Char} {rest : List Char} (hc : ∀ c' rest', c = '\\' → rest ≠ c' :: rest') :
    Inert (c :: rest) ↔ Inert rest := by
  rw [Inert]
  intro c' rest' h
  exact hc c' rest' h

/-- A template in which no backslash has a meaning is its own expansion. -/
theorem readFrom_inert (h : Inert s) (hfuel : s.length ≤ fuel) :
    readFrom groups source fuel s = .ok (s.map .literal) := by
  fun_induction readFrom groups source fuel s with
  | case1 s =>
    have hs : s = [] := List.eq_nil_of_length_eq_zero (by omega)
    rw [hs]
    rfl
  | case2 => rfl
  | case3 fuel c rest e he =>
    rw [readEscape_kept h.1] at he
    cases he
  | case4 fuel c rest pieces rest' hread ih =>
    rw [readEscape_kept h.1] at hread
    cases hread
    simp only [List.length_cons] at hfuel
    rw [ih h.2 (by omega)]
    rfl
  | case5 fuel c rest hc ih =>
    simp only [List.length_cons] at hfuel
    rw [ih ((inert_cons hc).mp h) (by omega)]
    rfl

theorem parseTemplate_inert (h : Inert source) :
    parseTemplate groups source = .ok (source.map .literal) :=
  readFrom_inert h (Nat.le_refl _)

theorem map_ok {α β : Type} {x : Except Exc α} {f : α → β} {b : β} (h : x.map f = .ok b) :
    ∃ a, x = .ok a ∧ b = f a := by
  cases x with
  | error e => cases h
  | ok a =>
    cases h
    exact ⟨a, rfl, rfl⟩

theorem readFrom_line {x y : List Char} (hx : Inert x) (hends : Text.EndsIn '\n' x)
    (hfuel : x.length ≤ fuel) (h : readFrom groups source fuel (x ++ y) = .ok pieces) :
    ∃ more, pieces = x.map .literal ++ more := by
  induction fuel generalizing x pieces with
  | zero =>
    have hnil : x = [] := List.eq_nil_of_length_eq_zero (by omega)
    exact ⟨pieces, by simp [hnil]⟩
  | succ fuel ih =>
    cases x with
    | nil => exact ⟨pieces, rfl⟩
    | cons c x =>
      simp only [List.length_cons] at hfuel
      by_cases hc : c = '\\'
      · subst hc
        obtain ⟨d, x, rfl⟩ : ∃ d z, x = d :: z := by
          apply List.exists_cons_of_ne_nil
          rintro rfl
          rcases hends with hnil | ⟨w, hw⟩
          · cases hnil
          · have hlast := congrArg List.getLast? hw
            simp at hlast
        simp only [List.length_cons] at hfuel
        simp only [List.cons_append, readFrom, readEscape_kept hx.1] at h
        obtain ⟨more, hmore, rfl⟩ := map_ok h
        obtain ⟨rest, rfl⟩ := ih hx.2 hends.tail.tail (by omega) hmore
        exact ⟨rest, rfl⟩
      · have hplain : ∀ c' rest', c = '\\' → x ++ y ≠ c' :: rest' := fun _ _ h => absurd h hc
        have hinert : Inert x := (inert_cons fun _ _ h => absurd h hc).mp hx
        rw [List.cons_append, readFrom] at h
        · obtain ⟨more, hmore, rfl⟩ := map_ok h
          obtain ⟨rest, rfl⟩ := ih hinert hends.tail (by omega) hmore
          exact ⟨rest, rfl⟩
        · exact hplain

/-- What a group holds begins with a character that no octal escape sequence holds. -/
def Marked (groups : Nat) (group : Nat → List Char) : Prop :=
  ∀ index ≤ groups, ∃ a x, group index = a :: x ∧ ¬ Mark a

/-- What is read falls behind what is written and does not catch up: `δ` is what the
expansion still lacks. -/
theorem expand_behind (hgroup : Marked groups group) (h : readFrom groups source fuel s = .ok pieces)
    {δ : List Char} (hδ : δ ≠ []) (hmark : ∀ d ∈ δ, Mark d) : expand group pieces ≠ δ ++ s := by
  fun_induction readFrom groups source fuel s generalizing pieces δ with
  | case1 s =>
    cases h
    exact fun heq => hδ (List.append_eq_nil_iff.mp heq.symm).1
  | case2 =>
    cases h
    exact fun heq => hδ (List.append_eq_nil_iff.mp heq.symm).1
  | case3 fuel c rest e he => cases h
  | case4 fuel c rest first rest' hread ih =>
    obtain ⟨more, hmore, rfl⟩ := map_ok h
    obtain ⟨d, δ, rfl⟩ := List.exists_cons_of_ne_nil hδ
    have hd := hmark d List.mem_cons_self
    intro heq
    rw [expand_append] at heq
    cases readEscape_escape hread with
    | kept hc =>
      obtain ⟨rfl, hnext⟩ := List.cons.inj heq
      cases δ with
      | nil =>
        obtain ⟨rfl, _⟩ := List.cons.inj hnext
        exact hc (Or.inr (Or.inr rfl))
      | cons d δ =>
        obtain ⟨rfl, _⟩ := List.cons.inj hnext
        exact hc (hmark c (by simp)).special
    | control he =>
      obtain ⟨rfl, _⟩ := List.cons.inj heq
      exact he hd
    | @octal e used rest' hused hrest =>
      obtain ⟨_, hnext⟩ := List.cons.inj heq
      have hlack : expand group more = (δ ++ '\\' :: c :: used) ++ rest' := by
        rw [hrest] at hnext
        simpa using hnext
      refine ih hmore (by simp) ?_ hlack
      intro x hx
      rcases List.mem_append.mp hx with hx | hx
      · exact hmark x (List.mem_cons_of_mem d hx)
      · rcases List.mem_cons.mp hx with rfl | hx
        · exact Or.inl rfl
        · exact hused x hx
    | group hindex =>
      obtain ⟨a, x, hx, ha⟩ := hgroup _ hindex
      rw [expand_group, hx] at heq
      obtain ⟨rfl, _⟩ := List.cons.inj heq
      exact ha hd
  | case5 fuel c rest hc ih =>
    obtain ⟨more, hmore, rfl⟩ := map_ok h
    obtain ⟨d, δ, rfl⟩ := List.exists_cons_of_ne_nil hδ
    intro heq
    obtain ⟨rfl, hnext⟩ := List.cons.inj heq
    have hlack : expand group more = (δ ++ [c]) ++ rest := by
      rw [List.append_assoc]
      exact hnext
    refine ih hmore (by simp) ?_ hlack
    intro x hx
    rcases List.mem_append.mp hx with hx | hx
    · exact hmark x (List.mem_cons_of_mem c hx)
    · rw [List.mem_singleton.mp hx]
      exact hmark c List.mem_cons_self

/-- No other template is its own expansion. -/
theorem inert_of_expand (hgroup : Marked groups group)
    (h : readFrom groups source fuel s = .ok pieces) (hsame : expand group pieces = s) : Inert s := by
  fun_induction readFrom groups source fuel s generalizing pieces with
  | case1 s =>
    cases h
    rw [← hsame]
    trivial
  | case2 => trivial
  | case3 fuel c rest e he => cases h
  | case4 fuel c rest first rest' hread ih =>
    obtain ⟨more, hmore, rfl⟩ := map_ok h
    rw [expand_append] at hsame
    cases readEscape_escape hread with
    | kept hc =>
      obtain ⟨_, hnext⟩ := List.cons.inj hsame
      exact ⟨hc, ih hmore (List.cons.inj hnext).2⟩
    | control he =>
      obtain ⟨rfl, _⟩ := List.cons.inj hsame
      exact absurd (Or.inl rfl) he
    | @octal e used rest' hused hrest =>
      obtain ⟨_, hnext⟩ := List.cons.inj hsame
      rw [hrest] at hnext
      exact absurd hnext (expand_behind hgroup hmore (List.cons_ne_nil _ _) hused)
    | group hindex =>
      obtain ⟨a, x, hx, ha⟩ := hgroup _ hindex
      rw [expand_group, hx] at hsame
      obtain ⟨rfl, _⟩ := List.cons.inj hsame
      exact absurd (Or.inl rfl) ha
  | case5 fuel c rest hc ih =>
    obtain ⟨more, hmore, rfl⟩ := map_ok h
    obtain ⟨_, hnext⟩ := List.cons.inj hsame
    exact (inert_cons hc).mpr (ih hmore hnext)

end Expand

end BulletFarm.Python
