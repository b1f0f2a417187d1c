import Mathlib.Tactic.SplitIfs
import Styrolite.ForStd.Triples

/-!
# Buffered writing

A sink takes a call `write` and answers with how many of the elements it has
taken, or with an error. `BufWriter` keeps elements back in a buffer of limited
capacity and hands them on when it is full; what is left in it is handed on when
the writer is dropped, and an error of that is ignored.

`Sunk` says what the sink holds and at which of its sizes a `write` has taken
nothing. What writer and sink hold together is what was written, up to the first
error (`writePieces_ends`). The errors that `writePieces` reports are those that
come before the sink holds `BufWriter.sent` elements; the rest are met by `drop`.

An interrupted `write` is taken to be retried by the sink.
-/

/-- The calls of a sink for elements of `α` with errors in `E`. -/
inductive SinkCall (α : Type) where
  | write (data : List α)
  | flush

/-- What a sink answers: how much it has taken, or an error. -/
@[reducible] def SinkCall.Answer {α : Type} (E : Type) : SinkCall α → Type
  | write data => Except E (Fin (data.length + 1))
  | flush => Except E Unit

/-- The interface of a sink. -/
abbrev sink (α E : Type) : Interface := ⟨SinkCall α, SinkCall.Answer E⟩

namespace BufWriter

open Prog LocalRules

variable {α E ε : Type}

/-- Write all of the data, in as many calls as it takes; the result is what is left of it.
    `zero` is the error for a call that takes nothing. -/
def drain (zero : E) : List α → Prog (sink α E) ε (Except E Unit × List α)
  | [] => pure (.ok (), [])
  | a :: data => .call (.write (a :: data)) fun
    | .error e => pure (.error e, a :: data)
    | .ok n =>
      match n.val with
      | 0 => pure (.error zero, a :: data)
      | n + 1 => drain zero (data.drop n)
termination_by data => data.length
decreasing_by
  rw [List.length_drop, List.length_cons]
  omega

end BufWriter

/-- A buffer in front of a sink. -/
structure BufWriter (α : Type) where
  capacity : Nat
  buf : List α
  deriving Repr, DecidableEq

namespace BufWriter

open Prog LocalRules

variable {α E ε : Type}

/-- An empty writer. -/
def new (capacity : Nat) : BufWriter α := ⟨capacity, []⟩

/-- The room that is left in the buffer. -/
def spare (w : BufWriter α) : Nat := w.capacity - w.buf.length

/-- Hand on what is in the buffer; what the sink has not taken stays in it. -/
def flushBuf (zero : E) (w : BufWriter α) : Prog (sink α E) ε (Except E Unit × BufWriter α) := do
  let (r, rest) ← drain zero w.buf
  pure (r, { w with buf := rest })

/-- Empty the buffer if the data has no room in it. -/
def makeRoom (zero : E) (w : BufWriter α) (data : List α) :
    Prog (sink α E) ε (Except E Unit × BufWriter α) :=
  if data.length > w.spare then flushBuf zero w else pure (.ok (), w)

/-- Write the data past the buffer if it would fill it, else put it there. -/
def writePast (zero : E) (w : BufWriter α) (data : List α) :
    Prog (sink α E) ε (Except E Unit × BufWriter α) :=
  if data.length ≥ w.capacity then do
    let (r, _) ← drain zero data
    pure (r, w)
  else pure (.ok (), { w with buf := w.buf ++ data })

/-- Write the data. -/
def writeAll (zero : E) (w : BufWriter α) (data : List α) :
    Prog (sink α E) ε (Except E Unit × BufWriter α) :=
  if data.length < w.spare then pure (.ok (), { w with buf := w.buf ++ data })
  else do
    let (r, w) ← makeRoom zero w data
    match r with
    | .error e => pure (.error e, w)
    | .ok () => writePast zero w data

/-- Write the pieces in turn, up to the first error. -/
def writePieces (zero : E) : BufWriter α → List (List α) →
    Prog (sink α E) ε (Except E Unit × BufWriter α)
  | w, [] => pure (.ok (), w)
  | w, piece :: pieces => do
    let (r, w) ← writeAll zero w piece
    match r with
    | .error e => pure (.error e, w)
    | .ok () => writePieces zero w pieces

/-- Dropping the writer hands on what is in the buffer. Nobody is told if that fails. -/
def drop (zero : E) (w : BufWriter α) : Prog (sink α E) ε Unit := do
  let _ ← flushBuf zero w

/-! ## What the sink holds -/

end BufWriter

/-- What a sink has taken, and the sizes it had when it took nothing of a `write`. -/
structure Sunk (α : Type) where
  content : List α
  failed : List Nat

namespace Sunk

variable {α E ε : Type}

/-- The sink takes the data. -/
def take (s : Sunk α) (data : List α) : Sunk α := { s with content := s.content ++ data }

/-- The sink fails where it is. -/
def fail (s : Sunk α) : Sunk α := { s with failed := s.failed ++ [s.content.length] }

/-- What is taken is added to the content. -/
@[simp] theorem take_content (s : Sunk α) (data : List α) :
    (s.take data).content = s.content ++ data := rfl

/-- Taking is no failure. -/
@[simp] theorem take_failed (s : Sunk α) (data : List α) : (s.take data).failed = s.failed := rfl

/-- A failure adds nothing. -/
@[simp] theorem fail_content (s : Sunk α) : s.fail.content = s.content := rfl

/-- A failure is noted at its place. -/
@[simp] theorem fail_failed (s : Sunk α) : s.fail.failed = s.failed ++ [s.content.length] := rfl

/-- Nothing is taken. -/
@[simp] theorem take_nil (s : Sunk α) : s.take [] = s := by simp [take]

/-- Data taken one after the other. -/
theorem take_take (s : Sunk α) (data data' : List α) :
    (s.take data).take data' = s.take (data ++ data') := by simp [take]

/-- A sink that may fail at any time. -/
def rules (α E : Type) : LocalRules (sink α E) (Sunk α) where
  allows _ _ _ := True
  next s c a :=
    match c, a with
    | .write _, .error _ => s.fail
    | .write data, .ok n => if n.val = 0 then s.fail else s.take (data.take n)
    | .flush, _ => s

/-- A sink may answer anything. -/
theorem lawful (s : Sunk α) (h : List (sink α E).Event) : (rules α E).Lawful s h :=
  fun _ _ _ _ => trivial

/-- Data that is taken in full. -/
theorem next_taken {s : Sunk α} {data : List α} (hne : data ≠ []) :
    (rules α E).next s (.write data) (.ok (Fin.last _)) = s.take data := by
  refine (if_neg fun h0 => hne (List.length_eq_zero_iff.1 h0)).trans ?_
  rw [Fin.val_last, List.take_length]

end Sunk

namespace BufWriter

open Prog LocalRules

variable {α E ε : Type} {zero : E} {s : Sunk α} {w : BufWriter α}

/-- All of the data is written, or at some point nothing more of it is taken. -/
theorem drain_ends (data : List α) :
    (Sunk.rules α E).Ends s (drain zero data : Prog (sink α E) ε _)
      (fun r s' => (r = (.ok (), []) ∧ s' = s.take data) ∨
        ∃ e done rest, data = done ++ rest ∧ rest ≠ [] ∧ r = (.error e, rest) ∧
          s' = (s.take done).fail) fun _ => False := by
  -- Induction along the calls of `drain`, each for what the sink has left
  induction data using drain.induct generalizing s with
  | case1 =>
    rw [drain]
    exact .pure (.inl ⟨rfl, s.take_nil.symm⟩)
  | case2 a data ih =>
    rw [drain]
    refine .call fun r _ => ?_
    cases r with
    | error e =>
      refine .pure (.inr ⟨e, [], a :: data, rfl, List.cons_ne_nil a data, rfl, ?_⟩)
      rw [Sunk.take_nil]
      rfl
    | ok n =>
      cases hn : n.val with
      | zero =>
        have hnext : (Sunk.rules α E).next s (.write (a :: data)) (.ok n) = s.fail := if_pos hn
        rw [hnext]
        dsimp only
        rw [hn]
        refine .pure (.inr ⟨zero, [], a :: data, rfl, List.cons_ne_nil a data, rfl, ?_⟩)
        rw [Sunk.take_nil]
      | succ k =>
        -- the sink has taken `a` and `k` more
        have hnext : (Sunk.rules α E).next s (.write (a :: data)) (.ok n) =
            s.take (a :: data.take k) := by
          refine (if_neg (by omega)).trans ?_
          rw [hn, List.take_succ_cons]
        rw [hnext]
        dsimp only
        rw [hn]
        refine (ih k).mono (fun r s' hpost => ?_) fun _ hno => hno
        rcases hpost with ⟨rfl, rfl⟩ | ⟨e, done, rest, hsplit, hrest, rfl, rfl⟩
        · refine .inl ⟨rfl, ?_⟩
          rw [Sunk.take_take, List.cons_append, List.take_append_drop]
        · refine .inr ⟨e, a :: (data.take k ++ done), rest, ?_, hrest, rfl, ?_⟩
          · rw [List.cons_append, List.append_assoc, ← hsplit, List.take_append_drop]
          · rw [Sunk.take_take, List.cons_append]

/-! ## The writer -/

/-- The writer after `makeRoom`, if that succeeds. -/
def emptied (w : BufWriter α) (data : List α) : BufWriter α :=
  if data.length > w.spare then { w with buf := [] } else w

/-- The writer after a write that succeeds. -/
def accept (w : BufWriter α) (data : List α) : BufWriter α :=
  if data.length < w.spare then { w with buf := w.buf ++ data }
  else if data.length ≥ w.capacity then w.emptied data
  else { w with buf := (w.emptied data).buf ++ data }

/-- The buffer keeps to its capacity. -/
def Fits (w : BufWriter α) : Prop := w.buf.length ≤ w.capacity

/-- An empty writer fits. -/
theorem new_fits (capacity : Nat) : (new capacity : BufWriter α).Fits := Nat.zero_le _

/-- Emptying the buffer leaves its capacity. -/
@[simp] theorem emptied_capacity (w : BufWriter α) (data : List α) :
    (w.emptied data).capacity = w.capacity := by
  unfold emptied
  split <;> rfl

/-- The writer fits after any data. -/
theorem Fits.accept (hw : w.Fits) (data : List α) : (w.accept data).Fits := by
  unfold Fits BufWriter.accept emptied spare at *
  split_ifs <;> grind

/-- A write adds no more than its data. -/
theorem length_accept_le (w : BufWriter α) (data : List α) :
    (w.accept data).buf.length ≤ w.buf.length + data.length := by
  unfold BufWriter.accept emptied
  split_ifs <;> grind

/-- Data that goes past the buffer finds it empty. -/
theorem Fits.buf_emptied (hw : w.Fits) {data : List α} (hpast : data.length ≥ w.capacity)
    (hroom : ¬ data.length < w.spare) : (w.emptied data).buf = [] := by
  unfold Fits at hw
  unfold spare at hroom
  unfold emptied spare
  split
  · rfl
  · rw [← List.length_eq_zero_iff]
    omega

/-- Room is made if there is too little, or the sink fails while the buffer is drained. -/
theorem makeRoom_ends (data : List α) :
    (Sunk.rules α E).Ends s (makeRoom zero w data : Prog (sink α E) ε _)
      (fun r s' => (r = (.ok (), w.emptied data) ∧ s'.failed = s.failed ∧
          s'.content ++ (w.emptied data).buf = s.content ++ w.buf) ∨
        ∃ e done rest, data.length > w.spare ∧ w.buf = done ++ rest ∧ rest ≠ [] ∧
          r = (.error e, { w with buf := rest }) ∧ s' = (s.take done).fail) fun _ => False := by
  unfold makeRoom emptied
  split
  · next hover =>
    refine .bind ((drain_ends w.buf).mono (fun r s' hpost => ?_) fun _ hno => hno)
    rcases hpost with ⟨rfl, rfl⟩ | ⟨e, done, rest, hsplit, hrest, rfl, rfl⟩
    · exact .pure (.inl ⟨rfl, rfl, List.append_nil _⟩)
    · exact .pure (.inr ⟨e, done, rest, hover, hsplit, hrest, rfl, rfl⟩)
  · exact .pure (.inl ⟨rfl, rfl, rfl⟩)

/-- What writer and sink hold together has grown by the data; or the data is not all taken, and
    the sink has failed once, at a size it would have had to grow beyond. -/
theorem writeAll_ends (hw : w.Fits) (data : List α) :
    (Sunk.rules α E).Ends s (writeAll zero w data : Prog (sink α E) ε _)
      (fun r s' => (r = (.ok (), w.accept data) ∧ s'.failed = s.failed ∧
          s'.content ++ (w.accept data).buf = s.content ++ w.buf ++ data) ∨
        ∃ e w' o, r = (.error e, w') ∧ s'.failed = s.failed ++ [o] ∧
          o + (w.accept data).buf.length <
            s.content.length + w.buf.length + data.length ∧
          s'.content.length + w'.buf.length + (w.accept data).buf.length ≤
            s.content.length + w.buf.length + data.length) fun _ => False := by
  unfold writeAll
  by_cases hroom : data.length < w.spare
  · -- The data fits and is only buffered
    rw [if_pos hroom]
    refine .pure (.inl ⟨?_, rfl, ?_⟩)
    · rw [accept, if_pos hroom]
    · rw [accept, if_pos hroom, List.append_assoc]
  rw [if_neg hroom]
  refine .bind ((makeRoom_ends data).mono (fun r s₁ hpost => ?_) fun _ hno => hno)
  rcases hpost with ⟨rfl, hfailed, hcontent⟩ | ⟨e, done, rest, hover, hsplit, hrest, rfl, rfl⟩
  · -- the buffer has room now, or is to be passed by
    have hlength := congrArg List.length hcontent
    simp only [List.length_append] at hlength
    dsimp only
    unfold writePast
    by_cases hpast : data.length ≥ w.capacity
    · -- The data goes past the buffer, which is empty, right to the sink
      have hempty := hw.buf_emptied hpast hroom
      have haccept : w.accept data = w.emptied data := by rw [accept, if_neg hroom, if_pos hpast]
      rw [if_pos (by rwa [emptied_capacity]), haccept, hempty]
      rw [hempty, List.append_nil] at hcontent
      rw [hempty, List.length_nil, Nat.add_zero] at hlength
      refine .bind ((drain_ends data).mono (fun r s₂ hpost => ?_) fun _ hno => hno)
      rcases hpost with ⟨rfl, rfl⟩ | ⟨e, done, rest, hsplit, hrest, rfl, rfl⟩
      · refine .pure (.inl ⟨rfl, hfailed, ?_⟩)
        rw [List.append_nil, Sunk.take_content, hcontent]
      · -- The sink fails in the middle of the data
        have hpos := List.length_pos_iff.2 hrest
        refine .pure (.inr ⟨e, w.emptied data, (s₁.content ++ done).length, rfl, ?_, ?_, ?_⟩)
        · rw [Sunk.fail_failed, Sunk.take_failed, hfailed, Sunk.take_content]
        · rw [hsplit, List.length_append, List.length_append, List.length_nil]
          omega
        · rw [hempty, hsplit, Sunk.fail_content, Sunk.take_content, List.length_append,
            List.length_append, List.length_nil]
          omega
    · -- The data goes into the buffer
      have haccept : w.accept data = { w with buf := (w.emptied data).buf ++ data } := by
        rw [accept, if_neg hroom, if_neg hpast]
      rw [if_neg (by rwa [emptied_capacity]), haccept]
      refine .pure (.inl ⟨?_, hfailed, ?_⟩)
      · rw [emptied_capacity]
      · rw [← List.append_assoc, hcontent]
  · -- the buffer could not be emptied, and the data has not been looked at
    have hpos := List.length_pos_iff.2 hrest
    have hle : (w.accept data).buf.length ≤ data.length := by
      rw [accept, if_neg hroom]
      split
      · rw [emptied, if_pos hover]
        exact Nat.zero_le _
      · rw [emptied, if_pos hover]
        exact Nat.le_refl _
    refine .pure (.inr ⟨e, _, (s.content ++ done).length, rfl, rfl, ?_, ?_⟩)
    · rw [hsplit, List.length_append, List.length_append]
      omega
    · rw [hsplit, Sunk.fail_content, Sunk.take_content, List.length_append, List.length_append]
      show _ + _ + rest.length + _ ≤ _
      omega

/-! ## Pieces -/

/-- The writer after all the pieces, if no write fails. -/
def acceptAll (w : BufWriter α) (pieces : List (List α)) : BufWriter α := pieces.foldl accept w

/-- No piece leaves the writer as it is. -/
@[simp] theorem acceptAll_nil (w : BufWriter α) : w.acceptAll [] = w := rfl

/-- The first piece, and then the rest. -/
@[simp] theorem acceptAll_cons (w : BufWriter α) (piece : List α) (pieces : List (List α)) :
    w.acceptAll (piece :: pieces) = (w.accept piece).acceptAll pieces := rfl

/-- What is held back is of the pieces and of what was held. -/
theorem length_acceptAll_le (w : BufWriter α) (pieces : List (List α)) :
    (w.acceptAll pieces).buf.length ≤ w.buf.length + pieces.flatten.length := by
  induction pieces generalizing w with
  | nil => simp
  | cons piece pieces ih =>
    have hstep := w.length_accept_le piece
    have hrest := ih (w.accept piece)
    rw [acceptAll_cons, List.flatten_cons, List.length_append]
    omega

/-- How many elements the sink is given while the pieces are written. -/
def sent (w : BufWriter α) (pieces : List (List α)) : Nat :=
  w.buf.length + pieces.flatten.length - (w.acceptAll pieces).buf.length

/-- What writer and sink hold together has grown by the pieces; or an error was reported, the
    sink has failed once, and all it holds with the writer is less than it would have got. -/
theorem writePieces_ends (hw : w.Fits) (pieces : List (List α)) :
    (Sunk.rules α E).Ends s (writePieces zero w pieces : Prog (sink α E) ε _)
      (fun r s' => (r = (.ok (), w.acceptAll pieces) ∧ s'.failed = s.failed ∧
          s'.content ++ (w.acceptAll pieces).buf = s.content ++ w.buf ++ pieces.flatten) ∨
        ∃ e w' o, r = (.error e, w') ∧ s'.failed = s.failed ++ [o] ∧
          o < s.content.length + w.sent pieces ∧
          s'.content.length + w'.buf.length ≤ s.content.length + w.sent pieces)
      fun _ => False := by
  induction pieces generalizing w s with
  | nil => exact .pure (.inl ⟨rfl, rfl, (List.append_nil _).symm⟩)
  | cons piece pieces ih =>
    have hle := w.length_accept_le piece
    have hle' := (w.accept piece).length_acceptAll_le pieces
    -- What is sent of all pieces is what is sent of the first, and then of the rest
    have hsent : w.sent (piece :: pieces) + (w.accept piece).buf.length =
        w.buf.length + piece.length + (w.accept piece).sent pieces := by
      rw [sent, sent, acceptAll_cons, List.flatten_cons, List.length_append]
      omega
    refine .bind ((writeAll_ends hw piece).mono (fun r s₁ hpost => ?_) fun _ hno => hno)
    rcases hpost with ⟨rfl, hfailed, hcontent⟩ | ⟨e, w', o, rfl, hfailed, ho, hheld⟩
    · -- The first piece is written; the rest starts with what writer and sink hold now
      have hlength := congrArg List.length hcontent
      simp only [List.length_append] at hlength
      refine (ih (hw.accept piece)).mono (fun r s₂ hpost => ?_) fun _ hno => hno
      rcases hpost with ⟨rfl, hfailed', hcontent'⟩ | ⟨e, w', o, rfl, hfailed', ho, hheld⟩
      · refine .inl ⟨rfl, hfailed'.trans hfailed, ?_⟩
        rw [acceptAll_cons, hcontent', hcontent, List.flatten_cons, List.append_assoc _ piece]
      · refine .inr ⟨e, w', o, rfl, ?_, ?_, ?_⟩
        · rw [hfailed', hfailed]
        · omega
        · omega
    · -- The first piece fails, and the rest is not tried
      refine .pure (.inr ⟨e, w', o, rfl, hfailed, ?_, ?_⟩)
      · omega
      · omega

/-- Dropping the writer hands on its buffer, or fails without a word. -/
theorem drop_ends :
    (Sunk.rules α E).Ends s (drop zero w : Prog (sink α E) ε _)
      (fun _ s' => s' = s.take w.buf ∨
        ∃ done rest, w.buf = done ++ rest ∧ rest ≠ [] ∧ s' = (s.take done).fail)
      fun _ => False := by
  refine .bind (.bind ((drain_ends w.buf).mono (fun r s' hpost => ?_) fun _ hno => hno))
  rcases hpost with ⟨rfl, rfl⟩ | ⟨e, done, rest, hsplit, hrest, rfl, rfl⟩
  · exact .pure (.pure (.inl rfl))
  · exact .pure (.pure (.inr ⟨done, rest, hsplit, hrest, rfl⟩))

/-! ## Some runs -/

/-- The sink takes all of the data at once. -/
theorem drain_runs_taken {data : List α} (hne : data ≠ []) :
    (drain zero data : Prog (sink α E) ε _).Runs [⟨.write data, .ok (Fin.last _)⟩]
      (.ok (.ok (), [])) := by
  obtain ⟨a, data, rfl⟩ := List.exists_cons_of_ne_nil hne
  rw [drain]
  refine .call ?_
  show Runs (drain zero (data.drop data.length)) [] _
  rw [List.drop_length, drain]
  exact .refl _

/-- The sink takes nothing. -/
theorem drain_runs_error {data : List α} (hne : data ≠ []) (e : E) :
    (drain zero data : Prog (sink α E) ε _).Runs [⟨.write data, .error e⟩]
      (.ok (.error e, data)) := by
  obtain ⟨a, data, rfl⟩ := List.exists_cons_of_ne_nil hne
  rw [drain]
  exact .call (.refl _)

/-- Dropping a writer runs as draining its buffer. -/
theorem drop_runs {h : List (sink α E).Event} {r : Except E Unit × List α}
    (hr : (drain zero w.buf : Prog (sink α E) ε _).Runs h (.ok r)) :
    (drop zero w : Prog (sink α E) ε _).Runs h (.ok ()) := by
  have hflush : (flushBuf zero w : Prog (sink α E) ε _).Runs (h ++ []) (.ok (r.1, _)) :=
    hr.bind (.refl _)
  have hdrop : (drop zero w : Prog (sink α E) ε _).Runs (h ++ [] ++ []) (.ok ()) :=
    hflush.bind (.refl _)
  rwa [List.append_nil, List.append_nil] at hdrop

/-- Pieces that fit into the buffer are kept back. -/
theorem writePieces_runs_of_lt {pieces : List (List α)}
    (hlt : w.buf.length + pieces.flatten.length < w.capacity) :
    (writePieces zero w pieces : Prog (sink α E) ε _).Runs []
      (.ok (.ok (), { w with buf := w.buf ++ pieces.flatten })) := by
  induction pieces generalizing w with
  | nil =>
    rw [List.flatten_nil, List.append_nil]
    exact .refl _
  | cons piece pieces ih =>
    rw [List.flatten_cons, List.length_append] at hlt
    -- The first piece fits, and so do the others after it
    have hroom : piece.length < w.spare := by
      unfold spare
      omega
    have hlt' : (w.buf ++ piece).length + pieces.flatten.length < w.capacity := by
      rw [List.length_append]
      omega
    have hrest := ih (w := { w with buf := w.buf ++ piece }) hlt'
    rw [List.flatten_cons, ← List.append_assoc]
    have hwrite : (writeAll zero w piece : Prog (sink α E) ε _) =
        pure (.ok (), { w with buf := w.buf ++ piece }) := if_pos hroom
    rw [writePieces, hwrite]
    exact hrest

end BufWriter
