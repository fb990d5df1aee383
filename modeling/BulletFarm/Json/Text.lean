import BulletFarm.Json.Value

/-!
# JSON text

`render` writes a value without blanks, with the escapes of the writer left
open; `loads` reads any JSON text, and also the three numbers outside the
standard that a lenient reader takes. Reading back what was written gives the
value again, for every writer whose escapes the reader undoes.
-/

namespace Json

set_option autoImplicit false

/-! ## Writing -/

section Render

variable (esc : Char → List Char)

def renderString (s : String) : List Char := '"' :: (s.toList.flatMap esc ++ ['"'])

mutual

def Value.render : Value → List Char
  | .null => ['n', 'u', 'l', 'l']
  | .bool true => ['t', 'r', 'u', 'e']
  | .bool false => ['f', 'a', 'l', 's', 'e']
  | .num literal => literal.toList
  | .str s => renderString esc s
  | .arr [] => ['[', ']']
  | .arr (x :: xs) => '[' :: (Value.render x ++ renderItems xs)
  | .obj [] => ['{', '}']
  | .obj ((k, v) :: ms) => '{' :: (renderString esc k ++ ':' :: (Value.render v ++ renderMembers ms))

def renderItems : List Value → List Char
  | [] => [']']
  | x :: xs => ',' :: (Value.render x ++ renderItems xs)

def renderMembers : List (String × Value) → List Char
  | [] => ['}']
  | (k, v) :: ms => ',' :: (renderString esc k ++ ':' :: (Value.render v ++ renderMembers ms))

end

end Render

/-! ## Reading -/

def isBlank (c : Char) : Bool := c == ' ' || c == '\t' || c == '\n' || c == '\r'

def skipBlanks : List Char → List Char
  | [] => []
  | c :: cs => if isBlank c then skipBlanks cs else c :: cs

def hexDigit? (c : Char) : Option Nat :=
  if '0' ≤ c ∧ c ≤ '9' then some (c.toNat - '0'.toNat)
  else if 'a' ≤ c ∧ c ≤ 'f' then some (c.toNat - 'a'.toNat + 10)
  else if 'A' ≤ c ∧ c ≤ 'F' then some (c.toNat - 'A'.toNat + 10)
  else none

def hex4? (a b c d : Char) : Option Nat := do
  let a ← hexDigit? a
  let b ← hexDigit? b
  let c ← hexDigit? c
  let d ← hexDigit? d
  some (a * 4096 + b * 256 + c * 16 + d)

/-- The character of a code point that is no surrogate. -/
def charOf? (n : Nat) : Option Char :=
  if n < 0xd800 ∨ 0xdfff < n ∧ n < 0x110000 then some (Char.ofNat n) else none

def simpleEscape? : Char → Option Char
  | '"' => some '"'
  | '\\' => some '\\'
  | '/' => some '/'
  | 'b' => some '\x08'
  | 'f' => some '\x0c'
  | 'n' => some '\n'
  | 'r' => some '\r'
  | 't' => some '\t'
  | _ => none

/-- The rest of a string literal after its opening quote. -/
def readString : List Char → Option (List Char × List Char)
  | [] => none
  | '"' :: rest => some ([], rest)
  | '\\' :: 'u' :: a :: b :: c :: d :: rest => do
    let hi ← hex4? a b c d
    match charOf? hi with
    | some ch =>
      let (cs, tail) ← readString rest
      some (ch :: cs, tail)
    | none =>
      match rest with
      | '\\' :: 'u' :: e :: f :: g :: h :: rest' => do
        let lo ← hex4? e f g h
        if hi < 0xdc00 ∧ 0xdc00 ≤ lo ∧ lo < 0xe000 then
          let ch ← charOf? (0x10000 + (hi - 0xd800) * 0x400 + (lo - 0xdc00))
          let (cs, tail) ← readString rest'
          some (ch :: cs, tail)
        else none
      | _ => none
  | '\\' :: c :: rest => do
    let ch ← simpleEscape? c
    let (cs, tail) ← readString rest
    some (ch :: cs, tail)
  | c :: rest =>
    if c.toNat < 0x20 then none
    else do
      let (cs, tail) ← readString rest
      some (c :: cs, tail)

def isNumberChar (c : Char) : Bool :=
  c.isDigit || c == '-' || c == '+' || c == '.' || c == 'e' || c == 'E'

def isExponent : List Char → Bool
  | [] => true
  | c :: rest =>
    (c == 'e' || c == 'E') &&
      (match rest with
        | '+' :: ds => !ds.isEmpty && ds.all Char.isDigit
        | '-' :: ds => !ds.isEmpty && ds.all Char.isDigit
        | ds => !ds.isEmpty && ds.all Char.isDigit)

def isFraction : List Char → Bool
  | '.' :: rest =>
    !(rest.takeWhile Char.isDigit).isEmpty && isExponent (rest.dropWhile Char.isDigit)
  | rest => isExponent rest

def isUnsigned (cs : List Char) : Bool :=
  (match cs.takeWhile Char.isDigit with
    | [] => false
    | ['0'] => true
    | c :: _ => c != '0') && isFraction (cs.dropWhile Char.isDigit)

/-- The grammar of a number literal. -/
def isNumeral : List Char → Bool
  | '-' :: rest => isUnsigned rest
  | cs => isUnsigned cs

def readNumber : List Char → Option (Value × List Char)
  | 'N' :: 'a' :: 'N' :: tail => some (.num "NaN", tail)
  | 'I' :: 'n' :: 'f' :: 'i' :: 'n' :: 'i' :: 't' :: 'y' :: tail => some (.num "Infinity", tail)
  | '-' :: 'I' :: 'n' :: 'f' :: 'i' :: 'n' :: 'i' :: 't' :: 'y' :: tail =>
    some (.num "-Infinity", tail)
  | cs =>
    if isNumeral (cs.takeWhile isNumberChar) then
      some (.num (String.ofList (cs.takeWhile isNumberChar)), cs.dropWhile isNumberChar)
    else none

mutual

def readValue : Nat → List Char → Option (Value × List Char)
  | 0, _ => none
  | fuel + 1, cs =>
    match skipBlanks cs with
    | '"' :: rest => do
      let (s, tail) ← readString rest
      some (.str (String.ofList s), tail)
    | '[' :: rest =>
      match skipBlanks rest with
      | ']' :: tail => some (.arr [], tail)
      | rest => do
        let (x, tail) ← readValue fuel rest
        let (xs, tail) ← readItems fuel tail
        some (.arr (x :: xs), tail)
    | '{' :: rest =>
      match skipBlanks rest with
      | '}' :: tail => some (.obj [], tail)
      | rest => do
        let (m, tail) ← readMember fuel rest
        let (ms, tail) ← readMembers fuel tail
        some (.obj (m :: ms), tail)
    | 'n' :: 'u' :: 'l' :: 'l' :: tail => some (.null, tail)
    | 't' :: 'r' :: 'u' :: 'e' :: tail => some (.bool true, tail)
    | 'f' :: 'a' :: 'l' :: 's' :: 'e' :: tail => some (.bool false, tail)
    | rest => readNumber rest

/-- The items that follow one item of an array. -/
def readItems : Nat → List Char → Option (List Value × List Char)
  | 0, _ => none
  | fuel + 1, cs =>
    match skipBlanks cs with
    | ']' :: tail => some ([], tail)
    | ',' :: rest => do
      let (x, tail) ← readValue fuel rest
      let (xs, tail) ← readItems fuel tail
      some (x :: xs, tail)
    | _ => none

def readMember : Nat → List Char → Option ((String × Value) × List Char)
  | 0, _ => none
  | fuel + 1, cs =>
    match skipBlanks cs with
    | '"' :: rest => do
      let (k, tail) ← readString rest
      match skipBlanks tail with
      | ':' :: rest => do
        let (v, tail) ← readValue fuel rest
        some ((String.ofList k, v), tail)
      | _ => none
    | _ => none

/-- The members that follow one member of an object. -/
def readMembers : Nat → List Char → Option (List (String × Value) × List Char)
  | 0, _ => none
  | fuel + 1, cs =>
    match skipBlanks cs with
    | '}' :: tail => some ([], tail)
    | ',' :: rest => do
      let (m, tail) ← readMember fuel rest
      let (ms, tail) ← readMembers fuel tail
      some (m :: ms, tail)
    | _ => none

end

/-- Read one JSON text. A byte order mark is refused. -/
def loads (text : String) : Option Value :=
  match text.toList with
  | '\ufeff' :: _ => none
  | cs =>
    match readValue (cs.length + 1) cs with
    | some (v, tail) => if skipBlanks tail = [] then some v else none
    | none => none

/-! ## Reading back what was written -/

/-- The reader undoes the escapes of the writer. -/
def Undone (esc : Char → List Char) : Prop :=
  ∀ c rest, readString (esc c ++ rest) =
    (readString rest).map fun p => (c :: p.1, p.2)

/-- Every number of the value is written as a number literal. -/
inductive Value.WellFormed : Value → Prop where
  | null : WellFormed .null
  | bool (b : Bool) : WellFormed (.bool b)
  | num (literal : String) : isNumeral literal.toList = true → WellFormed (.num literal)
  | str (s : String) : WellFormed (.str s)
  | arr (items : List Value) : (∀ v ∈ items, WellFormed v) → WellFormed (.arr items)
  | obj (members : List (String × Value)) : (∀ m ∈ members, WellFormed m.2) →
      WellFormed (.obj members)

/-- What may follow a value inside a text. -/
def Ends (rest : List Char) : Prop := ∀ c ∈ rest.head?, c = ',' ∨ c = ']' ∨ c = '}'

section RoundTrip
variable {esc : Char → List Char}

theorem readString_escaped (hesc : Undone esc) (cs rest : List Char) :
    readString (cs.flatMap esc ++ '"' :: rest) = some (cs, rest) := by
  induction cs with
  | nil => simp [readString]
  | cons c cs ih =>
    rw [List.flatMap_cons, List.append_assoc, hesc, ih]
    rfl

theorem skipBlanks_cons {c : Char} (h : isBlank c = false) (rest : List Char) :
    skipBlanks (c :: rest) = c :: rest := by simp [skipBlanks, h]

theorem takeWhile_append_of_all {f : Char → Bool} {xs rest : List Char}
    (hx : xs.all f = true) (hrest : ∀ c ∈ rest.head?, f c = false) :
    (xs ++ rest).takeWhile f = xs ∧ (xs ++ rest).dropWhile f = rest := by
  induction xs with
  | nil =>
    cases rest with
    | nil => simp
    | cons c rest => simp [hrest c (by simp)]
  | cons x xs ih =>
    simp only [List.all_cons, Bool.and_eq_true] at hx
    simp [hx.1, ih hx.2]

theorem isDigit_isNumberChar {c : Char} (h : c.isDigit = true) : isNumberChar c = true := by
  simp [isNumberChar, h]

theorem all_isNumberChar_of_all_isDigit {cs : List Char} (h : cs.all Char.isDigit = true) :
    cs.all isNumberChar = true := by
  rw [List.all_eq_true] at h ⊢
  exact fun c hc => isDigit_isNumberChar (h c hc)

theorem isExponent_all {cs : List Char} (h : isExponent cs = true) :
    cs.all isNumberChar = true := by
  cases cs with
  | nil => rfl
  | cons c rest =>
    simp only [isExponent, Bool.and_eq_true] at h
    have hc : isNumberChar c = true := by
      rcases Bool.or_eq_true _ _ ▸ h.1 with hc | hc <;> simp [isNumberChar, eq_of_beq hc]
    rw [List.all_cons, hc, Bool.true_and]
    have hrest := h.2
    split at hrest
    · simp only [Bool.and_eq_true] at hrest
      simp [isNumberChar, all_isNumberChar_of_all_isDigit hrest.2]
    · simp only [Bool.and_eq_true] at hrest
      simp [isNumberChar, all_isNumberChar_of_all_isDigit hrest.2]
    · simp only [Bool.and_eq_true] at hrest
      exact all_isNumberChar_of_all_isDigit hrest.2

theorem all_of_takeWhile {cs : List Char}
    (h : (cs.dropWhile Char.isDigit).all isNumberChar = true) : cs.all isNumberChar = true := by
  rw [← List.takeWhile_append_dropWhile (p := Char.isDigit) (l := cs), List.all_append, h,
    Bool.and_true]
  exact all_isNumberChar_of_all_isDigit List.all_takeWhile

theorem isFraction_all {cs : List Char} (h : isFraction cs = true) :
    cs.all isNumberChar = true := by
  unfold isFraction at h
  split at h
  · simp only [Bool.and_eq_true] at h
    rw [List.all_cons, all_of_takeWhile (isExponent_all h.2)]
    rfl
  · exact isExponent_all h

theorem isNumeral_all {cs : List Char} (h : isNumeral cs = true) :
    cs.all isNumberChar = true := by
  unfold isNumeral at h
  split at h
  · simp only [isUnsigned, Bool.and_eq_true] at h
    rw [List.all_cons, all_of_takeWhile (isFraction_all h.2)]
    rfl
  · simp only [isUnsigned, Bool.and_eq_true] at h
    exact all_of_takeWhile (isFraction_all h.2)

theorem isUnsigned_head {cs : List Char} (h : isUnsigned cs = true) :
    ∃ c rest, cs = c :: rest ∧ c.isDigit = true := by
  cases cs with
  | nil => simp [isUnsigned] at h
  | cons c rest =>
    refine ⟨c, rest, rfl, ?_⟩
    by_contra hc
    simp [isUnsigned, hc] at h

theorem isNumeral_head {cs : List Char} (h : isNumeral cs = true) :
    ∃ c rest, cs = c :: rest ∧
      (c.isDigit = true ∨ c = '-' ∧ ∃ d rest', rest = d :: rest' ∧ d.isDigit = true) := by
  unfold isNumeral at h
  split at h
  · rename_i rest
    obtain ⟨d, rest', rfl, hd⟩ := isUnsigned_head h
    exact ⟨'-', _, rfl, Or.inr ⟨rfl, d, rest', rfl, hd⟩⟩
  · obtain ⟨d, rest', rfl, hd⟩ := isUnsigned_head h
    exact ⟨d, rest', rfl, Or.inl hd⟩

theorem Ends.not_isNumberChar {rest : List Char} (h : Ends rest) :
    ∀ c ∈ rest.head?, isNumberChar c = false := by
  intro c hc
  rcases h c hc with rfl | rfl | rfl <;> rfl

theorem readNumber_literal {cs rest : List Char} (h : isNumeral cs = true) (hrest : Ends rest) :
    readNumber (cs ++ rest) = some (.num (String.ofList cs), rest) := by
  obtain ⟨htake, hdrop⟩ :=
    takeWhile_append_of_all (isNumeral_all h) hrest.not_isNumberChar
  obtain ⟨c, tail, rfl, hc⟩ := isNumeral_head h
  unfold readNumber
  split
  · rename_i heq
    simp only [List.cons_append, List.cons.injEq] at heq
    rcases hc with hc | ⟨hc, _⟩
    · simp [heq.1] at hc
    · simp [heq.1] at hc
  · rename_i heq
    simp only [List.cons_append, List.cons.injEq] at heq
    rcases hc with hc | ⟨hc, _⟩
    · simp [heq.1] at hc
    · simp [heq.1] at hc
  · rename_i heq
    simp only [List.cons_append, List.cons.injEq] at heq
    rcases hc with hc | ⟨_, d, rest', rfl, hd⟩
    · simp [heq.1] at hc
    · simp only [List.cons_append, List.cons.injEq] at heq
      simp [heq.2.1] at hd
  · rw [htake, hdrop, if_pos h]

theorem render_head (esc : Char → List Char) {v : Value} (hv : v.WellFormed) :
    ∃ c cs, v.render esc = c :: cs ∧ isBlank c = false ∧ c ≠ ']' ∧ c ≠ '}' ∧ c ≠ '\ufeff' := by
  cases hv with
  | null => exact ⟨_, _, by rw [Value.render], by decide⟩
  | bool b =>
    cases b with
    | true => exact ⟨_, _, by rw [Value.render], by decide⟩
    | false => exact ⟨_, _, by rw [Value.render], by decide⟩
  | num literal h =>
    obtain ⟨c, rest, hcs, hc⟩ := isNumeral_head h
    refine ⟨c, rest, by rw [Value.render, hcs], ?_⟩
    rcases hc with hc | ⟨rfl, _⟩
    · have hne : ∀ d, d.isDigit = false → c ≠ d := by
        rintro d hd rfl
        rw [hc] at hd
        cases hd
      refine ⟨?_, hne _ rfl, hne _ rfl, hne _ rfl⟩
      simp only [isBlank, Bool.or_eq_false_iff, beq_eq_false_iff_ne]
      exact ⟨⟨⟨hne _ rfl, hne _ rfl⟩, hne _ rfl⟩, hne _ rfl⟩
    · decide
  | str s => exact ⟨_, _, by rw [Value.render, renderString], by decide⟩
  | arr items _ =>
    cases items with
    | nil => exact ⟨_, _, by rw [Value.render], by decide⟩
    | cons x xs => exact ⟨_, _, by rw [Value.render], by decide⟩
  | obj members _ =>
    cases members with
    | nil => exact ⟨_, _, by rw [Value.render], by decide⟩
    | cons m ms => exact ⟨_, _, by rw [Value.render], by decide⟩

theorem skipBlanks_render (esc : Char → List Char) {v : Value} (hv : v.WellFormed) (rest : List Char) :
    skipBlanks (v.render esc ++ rest) = v.render esc ++ rest := by
  obtain ⟨c, cs, hcs, hb, _⟩ := render_head esc hv
  rw [hcs, List.cons_append, skipBlanks_cons hb]

theorem ends_renderItems (xs : List Value) (rest : List Char) :
    Ends (renderItems esc xs ++ rest) := by
  cases xs with
  | nil => simp [Ends, renderItems]
  | cons x xs => simp [Ends, renderItems]

theorem ends_renderMembers (ms : List (String × Value)) (rest : List Char) :
    Ends (renderMembers esc ms ++ rest) := by
  cases ms with
  | nil => simp [Ends, renderMembers]
  | cons m ms => simp [Ends, renderMembers]

theorem readString_render (hesc : Undone esc) (s : String) (rest : List Char) :
    readString (s.toList.flatMap esc ++ ['"'] ++ rest) = some (s.toList, rest) := by
  rw [List.append_assoc, List.singleton_append]
  exact readString_escaped hesc _ _

theorem readMember_render (hesc : Undone esc) {k : String} {v : Value} {fuel : Nat}
    {rest : List Char}
    (hv : readValue fuel (v.render esc ++ rest) = some (v, rest)) :
    readMember (fuel + 1) (renderString esc k ++ ':' :: (v.render esc ++ rest)) =
      some ((k, v), rest) := by
  have hk := readString_render hesc k (':' :: (v.render esc ++ rest))
  simp only [List.append_assoc, List.singleton_append] at hk
  simp [readMember, renderString, skipBlanks, isBlank, hk, hv]

theorem readValue_number {cs : List Char} (h : isNumeral cs = true) (fuel : Nat)
    (rest : List Char) : readValue (fuel + 1) (cs ++ rest) = readNumber (cs ++ rest) := by
  obtain ⟨c, tail, rfl, hc⟩ := isNumeral_head h
  have hother : ∀ d, d.isDigit = false → d ≠ '-' → c ≠ d := by
    rintro d hd hm rfl
    rcases hc with hc | ⟨hc, _⟩
    · rw [hc] at hd
      cases hd
    · exact hm hc
  have hblank : isBlank c = false := by
    simp only [isBlank, Bool.or_eq_false_iff, beq_eq_false_iff_ne]
    exact ⟨⟨⟨hother _ rfl (by decide), hother _ rfl (by decide)⟩, hother _ rfl (by decide)⟩,
      hother _ rfl (by decide)⟩
  rw [readValue, List.cons_append, skipBlanks_cons hblank]
  simp [hother '"' rfl (by decide), hother '[' rfl (by decide), hother '{' rfl (by decide),
    hother 'n' rfl (by decide), hother 't' rfl (by decide), hother 'f' rfl (by decide)]

mutual

theorem readValue_render (hesc : Undone esc) : (v : Value) → v.WellFormed → ∀ (fuel : Nat)
    (rest : List Char), (v.render esc).length < fuel → Ends rest →
    readValue fuel (v.render esc ++ rest) = some (v, rest)
  | v, hv, 0, rest, hfuel, hrest => absurd hfuel (Nat.not_lt_zero _)
  | .null, _, fuel + 1, rest, _, _ => by simp [Value.render, readValue, skipBlanks, isBlank]
  | .bool true, _, fuel + 1, rest, _, _ => by
    simp [Value.render, readValue, skipBlanks, isBlank]
  | .bool false, _, fuel + 1, rest, _, _ => by
    simp [Value.render, readValue, skipBlanks, isBlank]
  | .num literal, hv, fuel + 1, rest, _, hrest => by
    cases hv with
    | num _ h => rw [Value.render, readValue_number h, readNumber_literal h hrest,
        String.ofList_toList]
  | .str s, _, fuel + 1, rest, _, _ => by
    have hs := readString_render hesc s rest
    simp only [List.append_assoc, List.singleton_append] at hs
    simp [Value.render, renderString, readValue, skipBlanks, isBlank, hs]
  | .arr [], _, fuel + 1, rest, _, _ => by
    simp [Value.render, readValue, skipBlanks, isBlank]
  | .arr (x :: xs), hv, fuel + 1, rest, hfuel, hrest => by
    cases hv with
    | arr _ hx =>
      simp only [Value.render, List.length_cons, List.length_append] at hfuel
      have hxv := hx x List.mem_cons_self
      have h := readValue_render hesc x hxv fuel (renderItems esc xs ++ rest) (by omega)
        (ends_renderItems xs rest)
      have hs := readItems_render hesc xs (fun v hv => hx v (List.mem_cons_of_mem x hv)) fuel rest
        (by omega)
      have hskip := skipBlanks_render esc hxv (renderItems esc xs ++ rest)
      obtain ⟨c, cs, hcs, _, hc, _⟩ := render_head esc hxv
      rw [hcs] at h hskip
      simp only [List.cons_append] at h hskip
      simp [Value.render, readValue, skipBlanks_cons, isBlank, hcs, hskip, hc, h, hs]
  | .obj [], _, fuel + 1, rest, _, _ => by
    simp [Value.render, readValue, skipBlanks, isBlank]
  | .obj ((k, v) :: ms), hv, fuel + 1, rest, hfuel, hrest => by
    cases hv with
    | obj _ hm =>
      simp only [Value.render, renderString, List.length_cons, List.length_append] at hfuel
      obtain ⟨fuel, rfl⟩ : ∃ n, fuel = n + 1 := ⟨fuel - 1, by omega⟩
      have h := readValue_render hesc v (hm _ List.mem_cons_self) fuel
        (renderMembers esc ms ++ rest) (by omega) (ends_renderMembers ms rest)
      have hk := readMember_render hesc (k := k) h
      have hs := readMembers_render hesc ms (fun m hm' => hm m (List.mem_cons_of_mem _ hm'))
        (fuel + 1) rest (by omega)
      simp only [renderString, List.cons_append, List.append_assoc, List.nil_append] at hk
      simp [Value.render, renderString, readValue, skipBlanks_cons, isBlank, hk, hs]

theorem readItems_render (hesc : Undone esc) : (xs : List Value) → (∀ v ∈ xs, v.WellFormed) →
    ∀ (fuel : Nat) (rest : List Char), (renderItems esc xs).length < fuel →
    readItems fuel (renderItems esc xs ++ rest) = some (xs, rest)
  | _, _, 0, _, hfuel => absurd hfuel (Nat.not_lt_zero _)
  | [], _, fuel + 1, rest, _ => by simp [renderItems, readItems, skipBlanks, isBlank]
  | x :: xs, hx, fuel + 1, rest, hfuel => by
    simp only [renderItems, List.length_cons, List.length_append] at hfuel
    have h := readValue_render hesc x (hx x List.mem_cons_self) fuel
      (renderItems esc xs ++ rest) (by omega) (ends_renderItems xs rest)
    have hs := readItems_render hesc xs (fun v hv => hx v (List.mem_cons_of_mem x hv)) fuel rest
      (by omega)
    simp [renderItems, readItems, skipBlanks, isBlank, h, hs]

theorem readMembers_render (hesc : Undone esc) : (ms : List (String × Value)) →
    (∀ m ∈ ms, m.2.WellFormed) → ∀ (fuel : Nat) (rest : List Char),
    (renderMembers esc ms).length < fuel →
    readMembers fuel (renderMembers esc ms ++ rest) = some (ms, rest)
  | _, _, 0, _, hfuel => absurd hfuel (Nat.not_lt_zero _)
  | [], _, fuel + 1, rest, _ => by simp [renderMembers, readMembers, skipBlanks, isBlank]
  | (k, v) :: ms, hm, fuel + 1, rest, hfuel => by
    simp only [renderMembers, renderString, List.length_cons, List.length_append] at hfuel
    obtain ⟨fuel, rfl⟩ : ∃ n, fuel = n + 1 := ⟨fuel - 1, by omega⟩
    have h := readValue_render hesc v (hm _ List.mem_cons_self) fuel
      (renderMembers esc ms ++ rest) (by omega) (ends_renderMembers ms rest)
    have hk := readMember_render hesc (k := k) h
    have hs := readMembers_render hesc ms (fun m hm' => hm m (List.mem_cons_of_mem _ hm'))
      (fuel + 1) rest (by omega)
    simp only [renderString, List.cons_append, List.append_assoc, List.nil_append] at hk
    rw [readMembers]
    simp [renderMembers, renderString, skipBlanks_cons, isBlank, hk, hs]

end

/-- A text written from a value is read back as that value. -/
theorem loads_render (hesc : Undone esc) {v : Value} (hv : v.WellFormed) :
    loads (String.ofList (v.render esc)) = some v := by
  have h := readValue_render hesc v hv ((v.render esc).length + 1) [] (Nat.lt_succ_self _)
    (by simp [Ends])
  rw [List.append_nil] at h
  obtain ⟨c, cs, hcs, _, _, _, hbom⟩ := render_head esc hv
  rw [hcs] at h
  unfold loads
  rw [String.toList_ofList, hcs]
  split
  · rename_i heq
    cases heq
    exact absurd rfl hbom
  · rw [h]
    simp [skipBlanks]

end RoundTrip

end Json
