import BulletFarm.Json.Text
import Mathlib.Algebra.Group.Int.Defs
import Mathlib.Algebra.Group.Nat.Defs

/-!
# What the operator uses of Go and its standard library

Slices with their nil, 64-bit integers, `encoding/json` on the writing side and
on the side of small flat structs, and the quoting verb of `fmt`.
-/

namespace BulletFarm.Go

set_option autoImplicit false

/-- A slice; `none` is nil, which `encoding/json` writes as `null`. -/
abbrev Slice (α : Type) : Type := Option (List α)

namespace Slice
variable {α : Type}

def items (s : Slice α) : List α := s.getD []

def append (s : Slice α) (a : α) : Slice α := some (s.items ++ [a])

@[simp] theorem items_some (xs : List α) : items (some xs : Slice α) = xs := rfl

end Slice

/-- Two's complement wrap-around of a 64-bit `int` or `time.Duration`. -/
def int64 (n : Int) : Int := Int.bmod n (2 ^ 64)

def hexDigit (n : Nat) : Char := "0123456789abcdef".toList.getD n '0'

def hex4 (n : Nat) : List Char :=
  [hexDigit (n / 4096 % 16), hexDigit (n / 256 % 16), hexDigit (n / 16 % 16), hexDigit (n % 16)]

/-- How `json.Marshal` writes one character inside a string. -/
def jsonEscape (c : Char) : List Char :=
  if c = '"' then ['\\', '"']
  else if c = '\\' then ['\\', '\\']
  else if c = '\x08' then ['\\', 'b']
  else if c = '\x0c' then ['\\', 'f']
  else if c = '\n' then ['\\', 'n']
  else if c = '\r' then ['\\', 'r']
  else if c = '\t' then ['\\', 't']
  else if c.toNat < 0x20 ∨ c = '<' ∨ c = '>' ∨ c = '&' ∨ c.toNat = 0x2028 ∨ c.toNat = 0x2029 then
    '\\' :: 'u' :: hex4 c.toNat
  else [c]

/-- `json.Marshal`. -/
def marshal (v : Json.Value) : String := String.ofList (v.render jsonEscape)

def marshalStrings : Slice String → Json.Value
  | none => .null
  | some xs => .arr (xs.map .str)

/-- The controls, the format characters, the spaces and the private use areas from U+0080 on. -/
def unprintable : List (Nat × Nat) :=
  [(0x80, 0xa0), (0xad, 0xad), (0x600, 0x605), (0x61c, 0x61c), (0x6dd, 0x6dd), (0x70f, 0x70f),
    (0x890, 0x891), (0x8e2, 0x8e2), (0x1680, 0x1680), (0x180e, 0x180e), (0x2000, 0x200f),
    (0x2028, 0x202f), (0x205f, 0x2064), (0x2066, 0x206f), (0x3000, 0x3000), (0xe000, 0xf8ff),
    (0xfeff, 0xfeff), (0xfff9, 0xfffb), (0x110bd, 0x110bd), (0x110cd, 0x110cd), (0x13430, 0x1343f),
    (0x1bca0, 0x1bca3), (0x1d173, 0x1d17a), (0xe0001, 0xe0001), (0xe0020, 0xe007f),
    (0xf0000, 0xffffd), (0x100000, 0x10fffd)]

/-- One rune as the verb `%q` writes it; a code point that has no character counts as printable. -/
def quoteRune (c : Char) : List Char :=
  if c = '"' then ['\\', '"']
  else if c = '\\' then ['\\', '\\']
  else if c = '\x07' then ['\\', 'a']
  else if c = '\x08' then ['\\', 'b']
  else if c = '\x0c' then ['\\', 'f']
  else if c = '\n' then ['\\', 'n']
  else if c = '\r' then ['\\', 'r']
  else if c = '\t' then ['\\', 't']
  else if c = '\x0b' then ['\\', 'v']
  else if c.toNat < 0x20 ∨ c.toNat = 0x7f then
    ['\\', 'x', hexDigit (c.toNat / 16 % 16), hexDigit (c.toNat % 16)]
  else if unprintable.any fun range => range.1 ≤ c.toNat ∧ c.toNat ≤ range.2 then
    if c.toNat < 0x10000 then '\\' :: 'u' :: hex4 c.toNat
    else '\\' :: 'U' :: (hex4 (c.toNat / 0x10000) ++ hex4 c.toNat)
  else [c]

def quote (s : String) : String :=
  String.ofList ('"' :: (s.toList.flatMap quoteRune ++ ['"']))

example : quote "a\u00a0b" = "\"a\\u00a0b\"" := by decide

/-! ## Reading a struct -/

/-- Struct fields match the keys of an object up to case. -/
def foldRune (c : Char) : Char :=
  if c = '\u017f' then 'S' else if c = '\u212a' then 'K' else c.toUpper

def sameKey (field key : String) : Bool := field.toList.map foldRune == key.toList.map foldRune

/-- The value of an `int` literal; fractions, exponents and overflow are errors. -/
def parseInt (literal : String) : Option Int :=
  match literal.toInt? with
  | some n => if -2 ^ 63 ≤ n ∧ n < 2 ^ 63 then some n else none
  | none => none

/-- `json.Unmarshal` of a value into a struct: `set` stores one member, and the
first member of the wrong type makes the whole call fail. -/
def unmarshal {α : Type} (zero : α) (set : α → String → Json.Value → Option α) :
    Json.Value → Option α
  | .null => some zero
  | .obj members => members.foldlM (fun acc m => set acc m.1 m.2) zero
  | _ => none

def stringField (v : Json.Value) (old : String) : Option String :=
  match v with
  | .null => some old
  | .str s => some s
  | _ => none

def boolField (v : Json.Value) (old : Bool) : Option Bool :=
  match v with
  | .null => some old
  | .bool b => some b
  | _ => none

def intField (v : Json.Value) (old : Int) : Option Int :=
  match v with
  | .null => some old
  | .num literal => parseInt literal
  | _ => none

/-! ## The reader undoes what `json.Marshal` escapes -/

theorem readString_plain {c : Char} (hq : c ≠ '"') (hb : c ≠ '\\') (hc : ¬ c.toNat < 0x20)
    (rest : List Char) : Json.readString (c :: rest) =
      (Json.readString rest).map fun p => (c :: p.1, p.2) := by
  rw [Json.readString.eq_def]
  split
  · rename_i heq
    cases heq
  · rename_i heq
    cases heq
    exact absurd rfl hq
  · rename_i heq
    cases heq
    exact absurd rfl hb
  · rename_i heq
    cases heq
    exact absurd rfl hb
  · rename_i heq
    cases heq
    rw [if_neg hc]
    cases Json.readString rest <;> rfl

theorem readString_simple {c e : Char} (he : Json.simpleEscape? e = some c) (hu : e ≠ 'u')
    (rest : List Char) : Json.readString ('\\' :: e :: rest) =
      (Json.readString rest).map fun p => (c :: p.1, p.2) := by
  rw [Json.readString.eq_def]
  split
  · rename_i heq
    cases heq
  · rename_i heq
    cases heq
  · rename_i heq
    cases heq
    exact absurd rfl hu
  · rename_i heq
    cases heq
    simp only [he, Option.bind_eq_bind, Option.bind_some]
    cases Json.readString rest <;> rfl
  · rename_i hne heq
    cases heq
    exact (hne _ _ rfl rfl).elim

theorem hexDigit?_hexDigit {n : Nat} (h : n < 16) : Json.hexDigit? (hexDigit n) = some n := by
  have hall : ∀ n, n < 16 → Json.hexDigit? (hexDigit n) = some n := by decide
  exact hall n h

theorem hex4?_hex4 {n : Nat} (h : n < 65536) :
    Json.hex4? (hexDigit (n / 4096 % 16)) (hexDigit (n / 256 % 16)) (hexDigit (n / 16 % 16))
      (hexDigit (n % 16)) = some n := by
  have h₁ := hexDigit?_hexDigit (n := n / 4096 % 16) (by omega)
  have h₂ := hexDigit?_hexDigit (n := n / 256 % 16) (by omega)
  have h₃ := hexDigit?_hexDigit (n := n / 16 % 16) (by omega)
  have h₄ := hexDigit?_hexDigit (n := n % 16) (by omega)
  simp only [Json.hex4?, h₁, h₂, h₃, h₄, Option.bind_eq_bind, Option.bind_some, Option.some.injEq]
  omega

theorem readString_hex {c : Char} (h : c.toNat < 0xd800) (rest : List Char) :
    Json.readString ('\\' :: 'u' :: (hex4 c.toNat ++ rest)) =
      (Json.readString rest).map fun p => (c :: p.1, p.2) := by
  have hx := hex4?_hex4 (n := c.toNat) (by omega)
  have hc : Json.charOf? c.toNat = some c := by
    rw [Json.charOf?, if_pos (Or.inl h), Char.ofNat_toNat]
  simp only [hex4, List.cons_append, List.nil_append]
  rw [Json.readString]
  simp only [hx, Option.bind_eq_bind, Option.bind_some, hc]
  cases Json.readString rest <;> rfl

theorem jsonEscape_undone : Json.Undone jsonEscape := by
  intro c rest
  unfold jsonEscape
  split
  · subst c
    exact readString_simple rfl (by decide) rest
  split
  · subst c
    exact readString_simple rfl (by decide) rest
  split
  · subst c
    exact readString_simple rfl (by decide) rest
  split
  · subst c
    exact readString_simple rfl (by decide) rest
  split
  · subst c
    exact readString_simple rfl (by decide) rest
  split
  · subst c
    exact readString_simple rfl (by decide) rest
  split
  · subst c
    exact readString_simple rfl (by decide) rest
  split
  · rename_i hspecial
    apply readString_hex
    rcases hspecial with h | rfl | rfl | rfl | h | h
    · omega
    · decide
    · decide
    · decide
    · omega
    · omega
  · rename_i hq hb _ _ _ _ _ hspecial
    exact readString_plain hq hb (fun h => hspecial (Or.inl h)) rest

end BulletFarm.Go
