import Styrolite.ForStd.Decimal
import Styrolite.ForStd.Triples
import Styrolite.Native.Attach
import Styrolite.Spec.Schedule

/-!
# The first child of a process

`first_child_pid_of` reads the children file of the process and, where that gives
no number, the status of each process in `/proc`. In a process table that does not
change the two agree: the number is that of a child, there is an error exactly if
there is no child, and an only child is found either way (`firstChildPidOf_agrees`).

The directory may be listed in any order.
-/

namespace Styrolite

open Prog LocalRules

/-! ## The process table -/

/-- The children file: each number is followed by a space. -/
def childrenText (l : List Nat) : String := String.join (l.map fun c => toString c ++ " ")

/-- The line of a status that names the parent. -/
def ppidLine (ppid : Nat) : List Char := "PPid:\t".toList ++ (toString ppid).toList

/-- One line of the status names the parent, and no other starts so. -/
def NamesParent (status : String) (ppid : Nat) : Prop :=
  ∃ before rest, lines status = before ++ ppidLine ppid :: rest ∧
    ∀ l ∈ before ++ rest, ¬ "PPid".toList <+: l

/-- The processes, as `/proc` shows them, with or without the children file of `parent`. -/
structure ProcTable (parent : Nat) where
  pids : List Nat
  ppid : Nat → Nat
  status : Nat → String
  children : Option (List Nat)
  /-- A number fits in a `pid_t`. -/
  pid_le : ∀ p ∈ pids, p ≤ 2147483647
  namesParent : ∀ p ∈ pids, NamesParent (status p) (ppid p)
  mem_children : ∀ l, children = some l → ∀ c, c ∈ l ↔ c ∈ pids ∧ ppid c = parent

namespace ProcTable

variable {parent : Nat} (T : ProcTable parent)

def IsChild (c : Nat) : Prop := c ∈ T.pids ∧ T.ppid c = parent

/-- A listing of `/proc`: each process is there, and what else there is is not a number. -/
def Lists (names : List String) : Prop :=
  (∀ p ∈ T.pids, toString p ∈ names) ∧
    ∀ name ∈ names, (∃ p ∈ T.pids, name = toString p) ∨ Decimal.read name.toList = none

/-- The children file is there or not, and the status of each process can be read. -/
def Reads (path : String) (a : Except Errno String) : Prop :=
  (path = "/proc/" ++ toString (parent : Int) ++ "/task/" ++ toString (parent : Int) ++ "/children" →
    match T.children with
    | some l => a = .ok (childrenText l)
    | none => ∃ e, a = .error e) ∧
  ∀ p ∈ T.pids, path = "/proc/" ++ toString p ++ "/status" → a = .ok (T.status p)

/-- What is read of the processes; nothing changes. -/
def rules : LocalRules calls Unit where
  allows _ c a :=
    match c, a with
    | .fsReadToString path, a => T.Reads path a
    | .fsReadDir path, a => path = "/proc" → ∃ names, T.Lists names ∧ a = .ok (names.map .ok)
    | _, _ => True
  next _ _ _ := ()

/-- The same processes, without the children file. -/
def withoutChildren : ProcTable parent :=
  { T with children := none, mem_children := fun _ hnone => by cases hnone }

end ProcTable

/-! ## Numbers -/

/-- The number of a process is read back. -/
theorem parseI32_toString {n : Nat} (hn : n ≤ 2147483647) :
    parseI32 (toString n) = some (n : Int) := by
  have hdigit : ∀ c ∈ (toString n).toList, c.isDigit = true :=
    fun c hc => Decimal.isDigit_of_mem_toString hc
  have hany : (toString n).toList.any (fun c => !c.isDigit) = false := by
    rw [List.any_eq_false]
    intro c hc
    simp [hdigit c hc]
  -- The digits read back give the number
  have hvalue : (toString n).toList.foldl (fun n c => 10 * n + (c.toNat - '0'.toNat)) 0 = n := by
    have hread := Decimal.read_toString n
    rw [Decimal.read] at hread
    split at hread
    · exact Option.some.inj hread
    · cases hread
  unfold parseI32
  dsimp only
  split
  · -- No sign comes first
    next heq => exact absurd (hdigit '+' (heq ▸ List.mem_cons_self)) (by decide)
  · next heq => exact absurd (hdigit '-' (heq ▸ List.mem_cons_self)) (by decide)
  · have hdigits : ¬ ((toString n).toList = [] ∨
        (toString n).toList.any (fun c => !c.isDigit) = true) := by
      rw [not_or, hany]
      exact ⟨Decimal.toString_ne_nil n, Bool.false_ne_true⟩
    rw [if_neg hdigits, hvalue, Option.map_some, Option.filter_some]
    simp
    omega

/-- A name that starts with a digit is a number in decimal or none at all. -/
theorem parseI32_eq_none {name : String} (hdigit : name.toList.head?.any Char.isDigit = true)
    (hread : Decimal.read name.toList = none) : parseI32 name = none := by
  -- The text begins with a digit, so it has no sign
  cases hname : name.toList with
  | nil =>
    rw [hname] at hdigit
    cases hdigit
  | cons c cs =>
    rw [hname] at hdigit hread
    have hc : c.isDigit = true := hdigit
    -- Some character is no digit, since `Decimal.read` has found no number
    have hany : (c :: cs).any (fun c => !c.isDigit) = true := by
      rw [Decimal.read] at hread
      split at hread
      · cases hread
      · next hno =>
        have hall := fun hall => hno ⟨List.cons_ne_nil c cs, hall⟩
        rw [List.any_eq_true]
        by_contra hnone
        refine hall (List.all_eq_true.2 fun d hd => ?_)
        by_contra hd'
        exact hnone ⟨d, hd, by rw [Bool.not_eq_true] at hd'; rw [hd']; rfl⟩
    unfold parseI32
    rw [hname]
    dsimp only
    split
    · next heq =>
      cases heq
      exact absurd hc (by decide)
    · next heq =>
      cases heq
      exact absurd hc (by decide)
    · rw [if_pos (.inr hany), Option.map_none, Option.filter_none]

theorem firstField_childrenText (c : Nat) (l : List Nat) :
    firstField (childrenText (c :: l)) = toString c := by
  have htext : (childrenText (c :: l)).toList =
      (toString c).toList ++ ' ' :: (childrenText l).toList := by
    simp [childrenText, String.join_cons]
  have hspace : ∀ d ∈ (toString c).toList, decide (d ≠ ' ') = true := by
    intro d hd
    refine decide_eq_true fun heq => ?_
    have hdigit := Decimal.isDigit_of_mem_toString hd
    rw [heq] at hdigit
    exact absurd hdigit (by decide)
  rw [firstField, htext, List.takeWhile_append_of_pos hspace, List.takeWhile_cons_of_neg (by decide),
    List.append_nil, String.ofList_toList]

/-! ## The scan -/

namespace ProcTable

variable {parent : Nat} {T : ProcTable parent}

/-- The line that is looked for. -/
theorem needle_eq (parent : Nat) :
    ("PPid:\t" ++ toString (parent : Int)).toList = ppidLine parent := by
  rw [String.toList_append]
  rfl

/-- The line is that of the parent, in full. -/
theorem any_lines_iff {status : String} {ppid : Nat} (hstatus : NamesParent status ppid)
    (parent : Nat) : ((lines status).any (· = ppidLine parent) = true) ↔ ppid = parent := by
  obtain ⟨before, rest, hlines, hno⟩ := hstatus
  rw [hlines, List.any_eq_true]
  constructor
  · -- The line names a parent, and only one line does
    rintro ⟨l, hl, heq⟩
    rw [decide_eq_true_iff] at heq
    subst heq
    have hline : ppidLine parent = ppidLine ppid := by
      by_contra hne
      have hmem : ppidLine parent ∈ before ++ rest := by
        rw [List.mem_append, List.mem_cons] at hl
        rw [List.mem_append]
        exact hl.imp_right fun hl => hl.resolve_left hne
      exact hno _ hmem ⟨[':', '\t'] ++ (toString parent).toList, rfl⟩
    have htext : (toString parent).toList = (toString ppid).toList := List.append_cancel_left hline
    exact (Decimal.toString_injective (String.toList_inj.1 htext)).symm
  · -- The line is there
    rintro rfl
    exact ⟨_, List.mem_append_right _ List.mem_cons_self, decide_eq_true rfl⟩

theorem head_isDigit (n : Nat) : (toString n).toList.head?.any Char.isDigit = true := by
  cases htext : (toString n).toList with
  | nil => exact absurd htext (Decimal.toString_ne_nil n)
  | cons c cs => exact Decimal.isDigit_of_mem_toString (htext ▸ List.mem_cons_self)

/-- What a scan of the entries comes to. -/
structure Found (T : ProcTable parent) (names : List String) (r : Option Int) : Prop where
  some : ∀ v, r = some v → ∃ c : Nat, v = c ∧ T.IsChild c
  none : r = none → ∀ c, toString c ∈ names → ¬ T.IsChild c

/-- An entry that is not that of a child is passed over. -/
theorem Found.cons {name : String} {names : List String} {r : Option Int}
    (hno : ∀ c, name = toString c → ¬ T.IsChild c) (hr : T.Found names r) :
    T.Found (name :: names) r where
  some := hr.some
  none hnone c hc := by
    rcases List.mem_cons.1 hc with heq | hc
    · exact hno c heq.symm
    · exact hr.none hnone c hc

/-- The scan finds a child, or there is none in the listing. -/
theorem scanProc_ends {names : List String} (hnames : ∀ name ∈ names,
      (∃ p ∈ T.pids, name = toString p) ∨ Decimal.read name.toList = none) :
    T.rules.Ends () (scanProc (ppidLine parent) (names.map .ok)) (fun r _ => T.Found names r)
      fun _ => False := by
  induction names with
  | nil =>
    refine .pure ⟨fun v hv => ?_, fun _ c hc => absurd hc List.not_mem_nil⟩
    cases hv
  | cons name names ih =>
    rw [List.forall_mem_cons] at hnames
    obtain ⟨hname, hnames⟩ := hnames
    -- A name that is no child's is passed over
    have hskip (hno : ∀ c, name = toString c → ¬ T.IsChild c) :
        T.rules.Ends () (scanProc (ppidLine parent) (names.map .ok))
          (fun r _ => T.Found (name :: names) r) fun _ => False :=
      (ih hnames).mono (fun _ _ hr => hr.cons hno) fun _ hF => hF
    rw [List.map_cons, scanProc]
    refine .bind (.check (fun name' hname' => ?_) fun e he => by cases he)
    cases hname'
    by_cases hhead : name.toList.head?.any Char.isDigit = true
    · rw [hhead]
      refine .bind (.sys (I := calls) fun a ha => ?_)
      rcases hname with ⟨p, hp, rfl⟩ | hread
      · -- the status of a process names its parent
        have ha' : a = .ok (T.status p) := ha.2 p hp rfl
        subst ha'
        dsimp only
        -- The line with the parent is found exactly if `parent` is the parent
        by_cases hppid : T.ppid p = parent
        · rw [(any_lines_iff (T.namesParent p hp) parent).2 hppid, parseI32_toString (T.pid_le p hp)]
          refine .pure ⟨fun v hv => ?_, fun hnone => ?_⟩
          · cases hv
            exact ⟨p, rfl, hp, hppid⟩
          · cases hnone
        · rw [Bool.eq_false_iff.2 fun hany =>
            hppid ((any_lines_iff (T.namesParent p hp) parent).1 hany)]
          refine hskip fun c heq hc => hppid ?_
          rw [Decimal.toString_injective heq]
          exact hc.2
      · -- what is not a number is not parsed
        have hno (c : Nat) (heq : name = toString c) : ¬ T.IsChild c := by
          rw [heq, Decimal.read_toString] at hread
          cases hread
        have hparse := parseI32_eq_none hhead hread
        cases a with
        | ok status =>
          dsimp only
          rw [hparse]
          cases (lines status).any fun l => decide (l = ppidLine parent) with
          | true => exact hskip hno
          | false => exact hskip hno
        | error e => exact hskip hno
    · -- The name does not start with a digit, and every number does
      rw [Bool.not_eq_true] at hhead
      rw [hhead]
      refine hskip fun c heq => ?_
      rw [heq, head_isDigit] at hhead
      cases hhead

theorem scanChildPid_ends : T.rules.Ends () (scanChildPid parent)
    (fun v _ => ∃ c : Nat, v = c ∧ T.IsChild c) (fun _ => ∀ c, ¬ T.IsChild c) := by
  unfold scanChildPid
  rw [needle_eq]
  refine .bind (.sys (I := calls) fun a ha => ?_)
  obtain ⟨names, ⟨hall, hnames⟩, hok⟩ := ha rfl
  subst hok
  refine .bind (.check (fun entries hentries => ?_) fun e he => by cases he)
  cases hentries
  refine .bind ((scanProc_ends hnames).mono (fun r _ hr => ?_) fun _ hF => hF.elim)
  cases r with
  | some v => exact .pure (hr.some v rfl)
  | none => exact .fail fun c hc => hr.none rfl c (hall c hc.1) hc

/-- The children file names a child, or the scan decides. -/
theorem firstChildPidOf_ends (T : ProcTable parent) : T.rules.Ends () (firstChildPidOf parent)
    (fun v _ => ∃ c : Nat, v = c ∧ T.IsChild c) (fun _ => ∀ c, ¬ T.IsChild c) := by
  unfold firstChildPidOf
  refine .bind (.sys (I := calls) fun a ha => ?_)
  have hfile := ha.1 rfl
  cases hchildren : T.children with
  | none =>
    rw [hchildren] at hfile
    -- The kernel has no children file
    obtain ⟨e, he⟩ := hfile
    subst he
    exact scanChildPid_ends
  | some l =>
    rw [hchildren] at hfile
    have ha' : a = .ok (childrenText l) := hfile
    subst ha'
    dsimp only
    cases l with
    | nil => exact scanChildPid_ends
    | cons c l =>
      -- The first field is a child's number
      have hc := (T.mem_children _ hchildren c).1 List.mem_cons_self
      rw [firstField_childrenText, parseI32_toString (T.pid_le c hc.1)]
      exact .pure ⟨c, rfl, hc⟩

theorem scanProc_returns (needle : List Char) (entries : List (Except Errno String)) :
    (scanProc needle entries).Returns := by
  induction entries with
  | nil => exact .pure _
  | cons entry entries ih =>
    refine .bind (.check _ _) fun name => ?_
    split
    · exact ih
    · refine .bind (.sys (I := calls) _) fun a => ?_
      split
      · split
        · exact .pure _
        · exact ih
      · exact ih

theorem firstChildPidOf_returns (parent : Int) : (firstChildPidOf parent).Returns := by
  have hscan : (scanChildPid parent).Returns := by
    unfold scanChildPid
    refine .bind (.sys (I := calls) _) fun a => .bind (.check _ _) fun entries =>
      .bind (scanProc_returns _ _) fun r => ?_
    split
    · exact .pure _
    · exact .fail _
  unfold firstChildPidOf
  refine .bind (.sys (I := calls) _) fun a => ?_
  split
  · split
    · exact .pure _
    · exact hscan
  · exact hscan

theorem status_path_injective {p q : Nat}
    (heq : "/proc/" ++ toString p ++ "/status" = "/proc/" ++ toString q ++ "/status") : p = q := by
  have hlist := congrArg String.toList heq
  simp only [String.toList_append] at hlist
  have htext := List.append_cancel_left (List.append_cancel_right hlist)
  exact Decimal.toString_injective (String.toList_inj.1 htext)

theorem children_path_ne {p : Nat} {parent : Int} :
    "/proc/" ++ toString parent ++ "/task/" ++ toString parent ++ "/children" ≠
      "/proc/" ++ toString p ++ "/status" := by
  intro heq
  have hlast := congrArg (fun s : String => s.toList.reverse.head?) heq
  simp only [String.toList_append, List.reverse_append] at hlast
  exact absurd (show some 'n' = some 's' from hlast) (by decide)

/-- Every read can be answered. -/
theorem exists_allows (T : ProcTable parent) (c : Call) :
    ∃ a : c.Answer, T.rules.allows () c a := by
  cases c with
  | fsReadToString path =>
    -- The children file, the status of a process, or a file that is not there
    by_cases hchildren : path =
        "/proc/" ++ toString (parent : Int) ++ "/task/" ++ toString (parent : Int) ++ "/children"
    · subst hchildren
      have hstatus (a : Except Errno String) : ∀ p ∈ T.pids, "/proc/" ++ toString (parent : Int) ++
          "/task/" ++ toString (parent : Int) ++ "/children" = "/proc/" ++ toString p ++ "/status" →
            a = .ok (T.status p) := fun p _ heq => absurd heq children_path_ne
      cases hfile : T.children with
      | none => exact ⟨.error Errno.ENOENT, fun _ => by rw [hfile]; exact ⟨_, rfl⟩, hstatus _⟩
      | some l => exact ⟨.ok (childrenText l), fun _ => by rw [hfile], hstatus _⟩
    · -- The status of a process is its own, since the path names that
      by_cases hstatus : ∃ p ∈ T.pids, path = "/proc/" ++ toString p ++ "/status"
      · obtain ⟨p, hp, rfl⟩ := hstatus
        refine ⟨.ok (T.status p), fun heq => absurd heq hchildren, fun q _ heq => ?_⟩
        rw [status_path_injective heq]
      · exact ⟨.error Errno.ENOENT, fun heq => absurd heq hchildren,
          fun p hp heq => absurd ⟨p, hp, heq⟩ hstatus⟩
  | fsReadDir path =>
    -- The directory has the numbers of all processes and nothing else
    refine ⟨.ok ((T.pids.map toString).map .ok), fun _ => ⟨_, ⟨fun p hp => ?_, fun name hname => ?_⟩,
      rfl⟩⟩
    · exact List.mem_map_of_mem hp
    · obtain ⟨p, hp, rfl⟩ := List.mem_map.1 hname
      exact .inl ⟨p, hp, rfl⟩
  | _ => exact ⟨Call.success _, trivial⟩

/-- An only child is what the function returns. -/
theorem firstChildPidOf_only (T : ProcTable parent) {c : Nat} (hc : ∀ d, T.IsChild d ↔ d = c)
    {h : List Event}
    {r : Outcome Err Int} (hl : T.rules.Lawful () h) (hr : (firstChildPidOf parent).Runs h r) :
    r = .ok (c : Int) := by
  have hends := T.firstChildPidOf_ends h r hl hr
  cases r with
  | ok v =>
    obtain ⟨d, rfl, hd⟩ := hends
    rw [(hc d).1 hd]
  | err e => exact absurd ((hc c).2 rfl) (hends c)
  | halt n => exact absurd hr (firstChildPidOf_returns _ h n)

end ProcTable

/-- In a process table that does not change: what is returned is a child, there is an error exactly
    if there is no child, and an only child is found with the children file and without it. -/
theorem firstChildPidOf_agrees {parent : Nat} (T : ProcTable parent) :
    (∀ h v, T.rules.Lawful () h → (firstChildPidOf parent).Runs h (.ok v) →
      ∃ c : Nat, v = c ∧ T.IsChild c) ∧
    (∀ h r, T.rules.Lawful () h → (firstChildPidOf parent).Runs h r →
      ((∃ e, r = .err e) ↔ ∀ c, ¬ T.IsChild c)) ∧
    (∀ c, (∀ d, T.IsChild d ↔ d = c) → ∀ h h' r r', T.rules.Lawful () h →
      T.withoutChildren.rules.Lawful () h' → (firstChildPidOf parent).Runs h r →
      (firstChildPidOf parent).Runs h' r' → r = .ok (c : Int) ∧ r' = .ok (c : Int)) ∧
    ∃ h r, T.rules.Lawful () h ∧ (firstChildPidOf parent).Runs h r := by
  refine ⟨fun h v hl hr => T.firstChildPidOf_ends h _ hl hr, fun h r hl hr => ?_,
    fun c hc h h' r r' hl hl' hr hr' => ?_, ?_⟩
  · -- An error exactly if there is no child: the outcomes exclude each other
    have hends := T.firstChildPidOf_ends h r hl hr
    cases r with
    | ok v =>
      obtain ⟨c, -, hc⟩ := hends
      refine ⟨fun herr => ?_, fun hno => absurd hc (hno c)⟩
      obtain ⟨_, he⟩ := herr
      cases he
    | err e => exact ⟨fun _ => hends, fun _ => ⟨e, rfl⟩⟩
    | halt n => exact absurd hr (ProcTable.firstChildPidOf_returns _ h n)
  · exact ⟨T.firstChildPidOf_only hc hl hr, T.withoutChildren.firstChildPidOf_only hc hl' hr'⟩
  · exact exists_lawful_run (fun _ c => T.exists_allows c) _

/-- A supervisor and its only child, with a children file. -/
def supervisorTable : ProcTable 7 where
  pids := [7, 8]
  ppid p := if p = 8 then 7 else 1
  status p := if p = 8 then "Name:\tinit\nPPid:\t7\n" else "Name:\tstyrolite\nPPid:\t1\n"
  children := some [8]
  pid_le := by decide
  namesParent := by
    intro p hp
    rcases List.mem_pair.1 hp with rfl | rfl
    · exact ⟨["Name:\tstyrolite".toList], [], by decide +kernel, by decide +kernel⟩
    · exact ⟨["Name:\tinit".toList], [], by decide +kernel, by decide +kernel⟩
  mem_children := by
    intro l hl c
    cases hl
    by_cases hc : c = 8 <;> simp [hc]

/-- The only child is found in the children file, and without one in the listing of `/proc`. -/
theorem firstChildPidOf_agrees_supervisor : (∀ d, supervisorTable.IsChild d ↔ d = 8) ∧
    (∃ h, supervisorTable.rules.Lawful () h ∧ (firstChildPidOf 7).Runs h (.ok 8)) ∧
    ∃ h, supervisorTable.withoutChildren.rules.Lawful () h ∧
      (firstChildPidOf 7).Runs h (.ok 8) := by
  have honly : ∀ d, supervisorTable.IsChild d ↔ d = 8 := by
    intro d
    by_cases hd : d = 8 <;> simp [ProcTable.IsChild, supervisorTable, hd]
  obtain ⟨-, -, hfound, h, r, hl, hr⟩ := firstChildPidOf_agrees supervisorTable
  obtain ⟨-, -, -, h', r', hl', hr'⟩ := firstChildPidOf_agrees supervisorTable.withoutChildren
  obtain ⟨rfl, rfl⟩ := hfound 8 honly h h' r r' hl hl' hr hr'
  exact ⟨honly, ⟨h, hl, hr⟩, h', hl', hr'⟩

end Styrolite
