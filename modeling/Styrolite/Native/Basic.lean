import Mathlib.Data.Finset.Basic
import Mathlib.Data.List.DropRight
import Styrolite.ForStd.Prog

/-!
# Errors and standard-library helpers

The error values styrolite passes around, and the few functions of the Rust
standard library on strings and paths that the modelled code calls.
-/

namespace Styrolite

/-- `c_int`, as a bit vector: the code only ever ors and tests flags. -/
abbrev CInt := BitVec 32

/-- `c_ulong` and `u64`. -/
abbrev U64 := BitVec 64

/-- An operating-system error number, as `io::Error::raw_os_error` reports it. -/
structure Errno where
  code : Nat
  deriving DecidableEq, Repr

namespace Errno

def EPERM : Errno := ⟨1⟩
def ENOENT : Errno := ⟨2⟩
def ENOEXEC : Errno := ⟨8⟩
def EACCES : Errno := ⟨13⟩
def EROFS : Errno := ⟨30⟩

end Errno

/-- The errors the code returns. `os` is an `io::Error` passed on by `?`, `nul` the
    `NulError` of `CString::new`, `msg` a message of `anyhow!` or `bail!`, and `caused` one
    that quotes its cause: `anyhow!("{text}: {cause}{hint}")`. -/
inductive Err where
  | os (e : Errno)
  | nul
  | msg (text : String)
  | caused (text : String) (cause : Err) (hint : String)
  deriving DecidableEq, Repr

/-- `anyhow!("{text}: {e}")`. -/
def Err.context (text : String) (e : Err) : Err := .caused text e ""

/-- A `BTreeMap<String, String>`: its entries in the order of their distinct keys. -/
structure BTreeMap where
  entries : List (String × String)
  sorted : (entries.map Prod.fst).Pairwise (· < ·)

instance : Inhabited BTreeMap := ⟨⟨[], .nil⟩⟩

/-- `CString::new`: the string, unless it contains a NUL byte. -/
def cString (s : String) : Except Err String :=
  if s.toList.contains (Char.ofNat 0) then .error .nul else .ok s

/-- `str::trim_end_matches('/')`. -/
def trimEndSlashes (s : String) : String :=
  String.ofList (s.toList.reverse.dropWhile (· == '/')).reverse

/-- `str::trim_start_matches('/')`. -/
def trimStartSlashes (s : String) : String :=
  String.ofList (s.toList.dropWhile (· == '/'))

/-- `PathBuf::push`: an absolute argument replaces the path, any other is appended after a
    separator where one is needed. -/
def pathPush (path child : String) : String :=
  if child.toList.head? = some '/' then child
  else if path.toList = [] ∨ path.toList.getLast? = some '/' then path ++ child
  else path ++ "/" ++ child

/-- The components of a path between its separators, without empty ones and `.`. -/
def pathComponents (s : String) : List (List Char) :=
  (s.toList.splitOn '/').filter fun c => c ≠ [] ∧ c ≠ ['.']

/-- What is between the separators, up to the last component and what is empty or `.` before it, if
    there is a component. -/
def popComponent (names : List (List Char)) : Option (List (List Char)) :=
  match names.rdropWhile fun c => c = [] ∨ c = ['.'] with
  | [] => none
  | c :: cs => some ((c :: cs).dropLast.rdropWhile fun c => c = [] ∨ c = ['.'])

/-- `Path::parent`: the path without its last component, if it has one. A leading `.` counts as a
    component, and the text of what is before the last one stays as it is. -/
def pathParent (s : String) : Option String :=
  match s.toList.splitOn '/' with
  | [] :: c :: cs =>
    (popComponent (c :: cs)).map fun names => String.ofList ('/' :: List.intercalate ['/'] names)
  | ['.'] :: cs =>
    match popComponent cs with
    | some names => some (String.ofList (List.intercalate ['/'] (['.'] :: names)))
    | none => some ""
  | cs => (popComponent cs).map fun names => String.ofList (List.intercalate ['/'] names)

-- A relative path may begin with `.`, and what is not at the end stays
example : pathParent "/a/." = some "/" ∧ pathParent "a/.//c/b/./" = some "a/.//c" ∧
    pathParent "./a" = some "." ∧ pathParent "." = some "" ∧ pathParent "/" = none := by
  decide +kernel

/-- `str::parse::<i32>`: an optional sign and at least one digit, in range. -/
def parseI32 (s : String) : Option Int :=
  let digits (cs : List Char) : Option Nat :=
    if cs = [] ∨ cs.any (fun c => !c.isDigit) then none
    else some (cs.foldl (fun n c => 10 * n + (c.toNat - '0'.toNat)) 0)
  let value : Option Int :=
    match s.toList with
    | '+' :: cs => (digits cs).map Int.ofNat
    | '-' :: cs => (digits cs).map fun n => -Int.ofNat n
    | cs => (digits cs).map Int.ofNat
  value.filter fun v => -2147483648 ≤ v ∧ v ≤ 2147483647

end Styrolite
