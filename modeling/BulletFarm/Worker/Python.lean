import BulletFarm.Json.Value
import Mathlib.Data.List.Infix

/-!
# What the worker uses of Python

Exceptions and their texts, `str` and `repr` of the values that JSON can carry,
slices, joins, dictionaries, lower case and the clock.
-/

namespace BulletFarm.Python

set_option autoImplicit false

open Json

/-- The classes of exceptions that some handler of the worker tells apart. -/
inductive ExcKind where
  | connectionTimeout
  | connectionError
  | transportError
  | githubException
  | other
deriving DecidableEq, Repr

/-- An exception; `text` is what `str` gives for it. -/
structure Exc where
  kind : ExcKind
  text : String
deriving DecidableEq, Repr

def typeError (text : String) : Exc := ⟨.other, text⟩

/-! ## Strings -/

def take (n : Nat) (s : String) : String := String.ofList (s.toList.take n)

def contains (s needle : String) : Bool := decide (needle.toList <:+: s.toList)

/-- Of the letters outside ASCII only these two have ASCII letters in their lower case. -/
def lowerChar (c : Char) : List Char :=
  if c = '\u0130' then ['i', '\u0307'] else if c = '\u212a' then ['k'] else [c.toLower]

def lower (s : String) : String := String.ofList (s.toList.flatMap lowerChar)

def isSpace (c : Char) : Bool :=
  let n := c.toNat
  decide (0x09 ≤ n ∧ n ≤ 0x0d ∨ 0x1c ≤ n ∧ n ≤ 0x20 ∨ n = 0x85 ∨ n = 0xa0 ∨ n = 0x1680 ∨
    0x2000 ≤ n ∧ n ≤ 0x200a ∨ n = 0x2028 ∨ n = 0x2029 ∨ n = 0x202f ∨ n = 0x205f ∨ n = 0x3000)

def strip (s : String) : String :=
  String.ofList ((s.toList.dropWhile isSpace).reverse.dropWhile isSpace).reverse

def splitLines (s : String) : List String := (s.toList.splitOn '\n').map String.ofList

def join (sep : String) (xs : List String) : String := String.intercalate sep xs

def hexDigit (n : Nat) : Char := "0123456789abcdef".toList.getD n '0'

/-- One character of a `repr`; every character beyond ASCII counts as printable. -/
def reprChar (quote c : Char) : List Char :=
  if c = quote ∨ c = '\\' then ['\\', c]
  else if c = '\t' then ['\\', 't']
  else if c = '\n' then ['\\', 'n']
  else if c = '\r' then ['\\', 'r']
  else if c.toNat < 0x20 ∨ c.toNat = 0x7f then
    ['\\', 'x', hexDigit (c.toNat / 16), hexDigit (c.toNat % 16)]
  else [c]

def reprQuote (s : List Char) : Char := if '\x27' ∈ s ∧ '"' ∉ s then '"' else '\x27'

def reprString (s : String) : List Char :=
  reprQuote s.toList :: (s.toList.flatMap (reprChar (reprQuote s.toList)) ++ [reprQuote s.toList])

mutual

/-- `repr` of a value; a number is kept as Python prints it. -/
def reprValue : Value → List Char
  | .null => "None".toList
  | .bool true => "True".toList
  | .bool false => "False".toList
  | .num literal => literal.toList
  | .str s => reprString s
  | .arr [] => ['[', ']']
  | .arr (x :: xs) => '[' :: (reprValue x ++ reprItems xs)
  | .obj [] => ['{', '}']
  | .obj ((k, v) :: ms) => '{' :: (reprString k ++ ':' :: ' ' :: (reprValue v ++ reprMembers ms))

def reprItems : List Value → List Char
  | [] => [']']
  | x :: xs => ',' :: ' ' :: (reprValue x ++ reprItems xs)

def reprMembers : List (String × Value) → List Char
  | [] => ['}']
  | (k, v) :: ms => ',' :: ' ' :: (reprString k ++ ':' :: ' ' :: (reprValue v ++ reprMembers ms))

end

/-- `str` of a value, and what an f-string prints for it. -/
def str : Value → String
  | .str s => s
  | v => String.ofList (reprValue v)

def reprStrings (xs : List String) : String :=
  String.ofList (reprValue (.arr (xs.map .str)))

/-- `xs[:n]`; a negative end counts from the back. -/
def upTo {α : Type} (n : Int) (xs : List α) : List α :=
  xs.take (if n < 0 then (xs.length + n).toNat else n.toNat)

@[simp] theorem upTo_natCast {α : Type} (n : Nat) (xs : List α) : upTo n xs = xs.take n := by
  have hpos : ¬ (n : Int) < 0 := by omega
  simp only [upTo, if_neg hpos, Int.toNat_natCast]

@[simp] theorem upTo_nil {α : Type} (n : Int) : upTo n ([] : List α) = [] := List.take_nil

/-! ## Values -/

def typeName : Value → String
  | .null => "NoneType"
  | .bool _ => "bool"
  | .num literal => if literal.toInt?.isSome then "int" else "float"
  | .str _ => "str"
  | .arr _ => "list"
  | .obj _ => "dict"

def truthy : Value → Bool
  | .null => false
  | .bool b => b
  | .num literal => literal ∉ ["0", "0.0", "-0.0"]
  | .str s => s != ""
  | .arr items => !items.isEmpty
  | .obj members => !members.isEmpty

/-- `v[:n]`. -/
def slice (n : Nat) : Value → Except Exc Value
  | .str s => .ok (.str (take n s))
  | .arr items => .ok (.arr (items.take n))
  | .obj _ => .error (typeError "unhashable type: 'slice'")
  | v => .error (typeError ("'" ++ typeName v ++ "' object is not subscriptable"))

/-- `len(v)`. -/
def len : Value → Except Exc Nat
  | .str s => .ok s.length
  | .arr items => .ok items.length
  | .obj members => .ok members.length
  | v => .error (typeError ("object of type '" ++ typeName v ++ "' has no len()"))

def joinItems (sep : String) (acc : List String) : List Value → Except Exc String
  | [] => .ok (join sep acc)
  | .str s :: rest => joinItems sep (acc ++ [s]) rest
  | v :: _ => .error (typeError ("sequence item " ++ toString acc.length ++
      ": expected str instance, " ++ typeName v ++ " found"))

/-- `sep.join(v)`. -/
def joinValue (sep : String) : Value → Except Exc String
  | .str s => .ok (join sep (s.toList.map fun c => String.ofList [c]))
  | .arr items => joinItems sep [] items
  | .obj members => .ok (join sep (members.map Prod.fst))
  | _ => .error (typeError "can only join an iterable")

/-- A dictionary with string keys, in the order of insertion. -/
abbrev Dict : Type := List (String × Value)

namespace Dict

def get (d : Dict) (key : String) (default : Value) : Value := (Value.lookup key d).getD default

/-- `d[key] = v`; a key that is there keeps its place. -/
def set (d : Dict) (key : String) (v : Value) : Dict :=
  if key ∈ d.map Prod.fst then d.map fun m => if m.1 = key then (key, v) else m else d ++ [(key, v)]

/-- A dictionary display that ends with `**e`. -/
def update (d e : Dict) : Dict := e.foldl (fun acc m => acc.set m.1 m.2) d

theorem lookup_append (key : String) (d e : Dict) :
    Value.lookup key (d ++ e) = (Value.lookup key e).or (Value.lookup key d) := by
  induction d with
  | nil => exact Option.or_none.symm
  | cons m d ih =>
    rw [List.cons_append, Value.lookup_cons, Value.lookup_cons, ih, Option.or_assoc]

theorem lookup_replace (k key : String) (v : Value) (d : Dict) :
    Value.lookup k (d.map fun m => if m.1 = key then (key, v) else m) =
      if k = key then (Value.lookup key d).map fun _ => v else Value.lookup k d := by
  induction d with
  | nil => split <;> rfl
  | cons m d ih =>
    obtain ⟨a, b⟩ := m
    rw [List.map_cons, Value.lookup_cons, Value.lookup_cons]
    by_cases hk : k = key
    · subst hk
      rw [if_pos rfl] at ih ⊢
      by_cases ha : a = k
      · simp only [if_pos ha, ih]
        cases Value.lookup k d <;> rfl
      · simp only [if_neg ha, ih]
        cases Value.lookup k d <;> rfl
    · rw [if_neg hk] at ih ⊢
      by_cases ha : a = key
      · subst ha
        simp only [if_pos, Value.lookup_cons, ih, if_neg (Ne.symm hk)]
      · simp only [if_neg ha, Value.lookup_cons, ih]

theorem lookup_set (k key : String) (v : Value) (d : Dict) :
    Value.lookup k (d.set key v) = if k = key then some v else Value.lookup k d := by
  unfold set
  split
  · next hmem =>
    rw [lookup_replace]
    split
    · cases hlookup : Value.lookup key d with
      | some _ => rfl
      | none => exact absurd hmem (Value.lookup_eq_none.mp hlookup)
    · rfl
  · rw [lookup_append, Value.lookup_cons, Value.lookup_nil, Option.none_or]
    split
    · next hk => rw [if_pos hk.symm, Option.some_or]
    · next hk => rw [if_neg (Ne.symm hk), Option.none_or]

/-- What a display ends with wins. -/
theorem lookup_update (key : String) (d e : Dict) :
    Value.lookup key (d.update e) = (Value.lookup key e).or (Value.lookup key d) := by
  induction e generalizing d with
  | nil => rfl
  | cons m e ih =>
    obtain ⟨k, v⟩ := m
    change Value.lookup key ((d.set k v).update e) = _
    rw [ih, lookup_set, Value.lookup_cons, Option.or_assoc]
    by_cases hk : key = k
    · rw [if_pos hk, if_pos hk.symm, Option.some_or]
    · rw [if_neg hk, if_neg (Ne.symm hk), Option.none_or]

end Dict

def strings (xs : List String) : Value := .arr (xs.map .str)

theorem joinItems_strings (sep : String) (acc xs : List String) :
    joinItems sep acc (xs.map .str) = .ok (join sep (acc ++ xs)) := by
  induction xs generalizing acc with
  | nil =>
    rw [List.append_nil]
    rfl
  | cons x xs ih =>
    rw [List.map_cons, joinItems, ih, List.append_assoc]
    rfl

theorem joinValue_strings (sep : String) (xs : List String) :
    joinValue sep (strings xs) = .ok (join sep xs) :=
  joinItems_strings sep [] xs

theorem slice_strings (n : Nat) (xs : List String) :
    slice n (strings xs) = .ok (strings (xs.take n)) := by
  simp only [slice, strings, List.map_take]

/-! ## Processes and the clock -/

structure CompletedProcess where
  returncode : Int
  stdout : String
deriving DecidableEq, Repr

/-- The members of `signal.Signals` below the real-time signals. -/
def signalNames : List String :=
  ["SIGHUP", "SIGINT", "SIGQUIT", "SIGILL", "SIGTRAP", "SIGABRT", "SIGBUS", "SIGFPE", "SIGKILL",
    "SIGUSR1", "SIGSEGV", "SIGUSR2", "SIGPIPE", "SIGALRM", "SIGTERM", "SIGSTKFLT", "SIGCHLD",
    "SIGCONT", "SIGSTOP", "SIGTSTP", "SIGTTIN", "SIGTTOU", "SIGURG", "SIGXCPU", "SIGXFSZ",
    "SIGVTALRM", "SIGPROF", "SIGWINCH", "SIGIO", "SIGPWR", "SIGSYS"]

def signalName? (n : Nat) : Option String :=
  if n = 34 then some "SIGRTMIN" else if n = 64 then some "SIGRTMAX" else
  if n = 0 then none else signalNames[n - 1]?

def calledProcessError (cmd : List String) (returncode : Int) : Exc where
  kind := .other
  text :=
    if returncode < 0 then
      match signalName? returncode.natAbs with
      | some name => "Command '" ++ reprStrings cmd ++ "' died with <Signals." ++ name ++ ": " ++
          toString returncode.natAbs ++ ">."
      | none => "Command '" ++ reprStrings cmd ++ "' died with unknown signal " ++
          toString returncode.natAbs ++ "."
    else "Command '" ++ reprStrings cmd ++ "' returned non-zero exit status " ++
      toString returncode ++ "."

/-- Microseconds since 1970, in UTC. -/
abbrev Time : Type := Int

def seconds (n : Int) : Int := 1000000 * n

/-- Year, month and day of a day counted from 1970. -/
def civil (day : Int) : Int × Int × Int :=
  let z := day + 719468
  let era := z / 146097
  let doe := z % 146097
  let yoe := (doe - doe / 1460 + doe / 36524 - doe / 146096) / 365
  let doy := doe - (365 * yoe + yoe / 4 - yoe / 100)
  let mp := (5 * doy + 2) / 153
  let m := if mp < 10 then mp + 3 else mp - 9
  (yoe + era * 400 + (if m ≤ 2 then 1 else 0), m, doy - (153 * mp + 2) / 5 + 1)

def padded (width : Nat) (n : Int) : String :=
  let digits := (toString n).toList
  String.ofList (List.replicate (width - digits.length) '0' ++ digits)

/-- `isoformat` of a time in UTC. -/
def isoformat (t : Time) : String :=
  let (year, month, day) := civil (t / 86400000000)
  let s := t % 86400000000 / 1000000
  let micros := t % 1000000
  padded 4 year ++ "-" ++ padded 2 month ++ "-" ++ padded 2 day ++ "T" ++
    padded 2 (s / 3600) ++ ":" ++ padded 2 (s / 60 % 60) ++ ":" ++ padded 2 (s % 60) ++
    (if micros = 0 then "" else "." ++ padded 6 micros) ++ "+00:00"

example : isoformat (seconds 1700000000 + 5) = "2023-11-14T22:13:20.000005+00:00" := by decide

end BulletFarm.Python
