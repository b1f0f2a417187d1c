import Styrolite.Native.Runner

/-!
# The configuration file is complete

`BufWriter` reports the errors of the writes it makes while `serde_json` writes
the encoding. What is then left in its buffer is written when it is dropped, and
an error of that is not reported; nor does the explicit flush report it, which
has nothing to do. So `write_config` may return `Ok` with the end of the encoding
lost, which happens exactly if a write fails when the file holds all that was
handed on before the drop (`writeConfig_complete_iff`).

## Key results

- `writeConfig_complete_iff`: when `Ok` means that the file is complete
-/

namespace Styrolite.Runner

open Prog LocalRules BufWriter

/-- The file that `TempFile::new` creates. -/
def emptyFile : Sunk UInt8 := ⟨[], []⟩

/-- How many bytes of the encoding are handed on before the writer is dropped. -/
def sentBytes (pieces : List (List UInt8)) : Nat :=
  (BufWriter.new DEFAULT_BUF_SIZE : BufWriter UInt8).sent pieces

abbrev fileRules : LocalRules (sink UInt8 IoError) (Sunk UInt8) := Sunk.rules UInt8 IoError

/-- The file holds the encoding and no write has failed; or it lacks the end of it, after a
    failure that was not reported; or one was reported. -/
theorem writeEncoding_ends (pieces : List (List UInt8)) :
    fileRules.Ends emptyFile (writeEncoding pieces)
      (fun _ s => (s.content = pieces.flatten ∧ s.failed = []) ∨
        s.content ≠ pieces.flatten ∧ ∃ o, s.failed = [o] ∧ sentBytes pieces ≤ o)
      fun s => ∀ o ∈ s.failed, o < sentBytes pieces := by
  refine .bind ((writePieces_ends (new_fits _) pieces).mono (fun r s hpost => ?_)
    fun _ hno => hno.elim)
  rcases hpost with ⟨rfl, hfailed, hcontent⟩ | ⟨e, w, o, rfl, hfailed, ho, hheld⟩
  · refine .bind (drop_ends.mono (fun _ s' hpost => ?_) fun _ hno => hno.elim)
    -- All pieces were taken: what the sink does not hold is in the buffer, which the drop writes
    have hflat : s.content ++ ((BufWriter.new DEFAULT_BUF_SIZE).acceptAll pieces).buf =
        pieces.flatten := hcontent
    rcases hpost with rfl | ⟨done, rest, hsplit, hrest, rfl⟩
    · exact .pure (.inl ⟨hflat, hfailed⟩)
    · -- the rest is lost
      have hpos := List.length_pos_iff.2 hrest
      have hlength := congrArg List.length hflat
      rw [List.length_append] at hlength
      have hbuf := congrArg List.length hsplit
      rw [List.length_append] at hbuf
      refine .pure (.inr ⟨fun heq => ?_, s.content.length + done.length, ?_, ?_⟩)
      · have hshort := congrArg List.length heq
        rw [Sunk.fail_content, Sunk.take_content, List.length_append] at hshort
        omega
      · rw [Sunk.fail_failed, Sunk.take_failed, Sunk.take_content, List.length_append, hfailed]
        rfl
      · have hsent : sentBytes pieces = pieces.flatten.length -
            ((BufWriter.new DEFAULT_BUF_SIZE).acceptAll pieces).buf.length := by
          rw [sentBytes, sent, new, List.length_nil, Nat.zero_add]
        omega
  · refine .bind (drop_ends.mono (fun _ s' hpost => ?_) fun _ hno => hno.elim)
    -- A piece was refused: the drop writes what the buffer holds, and may fail once more
    refine .fail ?_
    have hzero : emptyFile.content.length + (BufWriter.new DEFAULT_BUF_SIZE).sent pieces =
        sentBytes pieces := Nat.zero_add _
    rw [hzero] at ho hheld
    rcases hpost with rfl | ⟨done, rest, hsplit, hrest, rfl⟩
    · rw [Sunk.take_failed, hfailed]
      simpa [emptyFile] using ho
    · have hpos := List.length_pos_iff.2 hrest
      rw [hsplit, List.length_append] at hheld
      have hdone : s.content.length + done.length < sentBytes pieces := by omega
      rw [Sunk.fail_failed, Sunk.take_failed, hfailed]
      simpa [emptyFile] using ⟨ho, hdone⟩

section

variable {T : Type} [Configurable T] {pieces : Config → List (List UInt8)} {config : T}
  {encap : Config} {h : List (sink UInt8 IoError).Event} {r : Outcome Err Unit}

/-- A run of `write_config` is one of its block that fails, or one that succeeds and a flush. -/
theorem writeConfig_runs (hencap : Configurable.encapsulate config = .ok encap)
    (hr : (writeConfig pieces config).Runs h r) :
    (r ≠ .ok () ∧ (h = [] ∨ (writeEncoding (pieces encap)).Runs h r)) ∨
      ∃ h', (writeEncoding (pieces encap)).Runs h' (.ok ()) ∧
        ((r = .ok () ∧ h = h' ++ [⟨.flush, .ok ()⟩]) ∨
          ∃ e, r ≠ .ok () ∧ h = h' ++ [⟨.flush, .error e⟩]) := by
  unfold writeConfig at hr
  cases hvalidate : Configurable.validate config with
  | error e =>
    rw [hvalidate] at hr
    -- Validation fails, before the file is there
    obtain ⟨rfl, rfl⟩ := runs_done.1 hr
    exact .inl ⟨nofun, .inl rfl⟩
  | ok u =>
    simp only [hvalidate, hencap, check_ok, pure_bind] at hr
    -- The block ends the run with an error, or the flush comes after it
    rcases reaches_bind.1 hr with ⟨p', hp', heq⟩ | ⟨⟨⟩, h', h'', hrun, hflush, rfl⟩
    · cases p' with
      | done r' =>
        cases r' with
        | ok u => cases heq
        | err e =>
          cases heq
          exact .inl ⟨nofun, .inr hp'⟩
        | halt n =>
          cases heq
          exact .inl ⟨nofun, .inr hp'⟩
      | call c k => cases heq
    · refine .inr ⟨h', hrun, ?_⟩
      obtain ⟨a, h₃, rfl, hcheck⟩ := runs_call.1 hflush
      cases a with
      | ok u =>
        obtain ⟨rfl, rfl⟩ := runs_done.1 hcheck
        exact .inl ⟨rfl, rfl⟩
      | error e =>
        obtain ⟨rfl, rfl⟩ := runs_done.1 hcheck
        exact .inr ⟨e, nofun, rfl⟩

/-- `Ok` from `write_config` means that the file is complete, exactly if no write fails when the
    file holds all that was handed on before the drop, or the flush fails. -/
theorem writeConfig_complete_iff (hencap : Configurable.encapsulate config = .ok encap)
    (hr : (writeConfig pieces config).Runs h r) :
    (r = .ok () → (fileRules.after emptyFile h).content = (pieces encap).flatten) ↔
      (∀ o ∈ (fileRules.after emptyFile h).failed, o < sentBytes (pieces encap)) ∨
        ∃ h' e, h = h' ++ [⟨.flush, .error e⟩] := by
  have hends := writeEncoding_ends (pieces encap)
  rcases writeConfig_runs hencap hr with
    ⟨hne, hrun⟩ | ⟨h', hrun, ⟨rfl, rfl⟩ | ⟨e, hne, rfl⟩⟩
  · -- The run has failed, and no write fails so late without that
    refine iff_of_true (fun hok => absurd hok hne) (.inl ?_)
    rcases hrun with rfl | hrun
    · exact fun o ho => absurd ho List.not_mem_nil
    · have hpost := hends h _ (Sunk.lawful _ _) hrun
      cases r with
      | ok u => exact absurd rfl hne
      | err e => exact hpost
      | halt n => exact hpost
  · -- the flush changes nothing
    have hafter : fileRules.after emptyFile (h' ++ [⟨.flush, .ok ()⟩]) =
        fileRules.after emptyFile h' := after_append _ _ _ _
    have hflush : ¬ ∃ h'' e, h' ++ [(⟨.flush, .ok ()⟩ : (sink UInt8 IoError).Event)] =
        h'' ++ [⟨.flush, .error e⟩] := by
      rintro ⟨h'', e, heq⟩
      have hlast := (List.append_inj' heq rfl).2
      cases hlast
    rw [hafter, or_iff_left hflush]
    rcases hends h' _ (Sunk.lawful _ _) hrun with ⟨hcontent, hfailed⟩ | ⟨hne, o, hfailed, ho⟩
    · rw [hfailed]
      exact iff_of_true (fun _ => hcontent) fun o ho => absurd ho List.not_mem_nil
    · rw [hfailed]
      refine iff_of_false (fun hok => hne (hok rfl)) fun hlt => ?_
      exact absurd (hlt o List.mem_cons_self) (Nat.not_lt.2 ho)
  · -- The flush has failed
    exact iff_of_true (fun hok => absurd hok hne) (.inr ⟨h', e, rfl⟩)

end

/-- An encoding that fits into the buffer is written when the writer is dropped, and nothing that
    happens then is noticed. -/
theorem writeConfig_runs_of_lt {T : Type} [Configurable T] {pieces : Config → List (List UInt8)}
    {config : T} {encap : Config} {h : List (sink UInt8 IoError).Event}
    {r : Except IoError Unit × List UInt8} (hvalid : Configurable.validate config = .ok ())
    (hencap : Configurable.encapsulate config = .ok encap)
    (hlt : (pieces encap).flatten.length < DEFAULT_BUF_SIZE)
    (hdrain : (drain .writeZero (pieces encap).flatten : Prog (sink UInt8 IoError) Err _).Runs h
      (.ok r)) :
    (writeConfig pieces config).Runs (h ++ [⟨.flush, .ok ()⟩]) (.ok ()) := by
  have hpieces : (writePieces .writeZero (new DEFAULT_BUF_SIZE) (pieces encap) :
      Prog (sink UInt8 IoError) Err _).Runs [] (.ok (.ok (), _)) :=
    writePieces_runs_of_lt (by rwa [new, List.length_nil, Nat.zero_add])
  have hblock : (writeEncoding (pieces encap)).Runs ([] ++ (h ++ [])) (.ok ()) :=
    hpieces.bind ((drop_runs hdrain).bind (.refl _))
  rw [List.nil_append, List.append_nil] at hblock
  unfold writeConfig
  simp only [hvalid, hencap, check_ok, pure_bind]
  exact hblock.bind (.call (.refl _))

/-! ## A short configuration -/

/-- A JSON string without characters to escape, in the pieces that `serde_json` writes. -/
def jsonString (s : String) : List String := ["\"", s, "\""]

/-- A JSON object. -/
def jsonObject (fields : List (String × List String)) : List String :=
  "\x7b" :: (((fields.map fun (key, value) => jsonString key ++ ":" :: value).intersperse
    [","]).flatten ++ ["\x7d"])

/-- `serde_json`'s pieces for a request to attach to process 1 in which nothing else is set. -/
def attachJson : List String :=
  jsonObject
    [("kind", jsonString "Attach"), ("pid", ["1"]),
     ("exec", jsonObject
       [("executable", ["null"]), ("arguments", ["null"]), ("working_directory", ["null"]),
        ("environment", ["null"]), ("uid", ["null"]), ("gid", ["null"]),
        ("supplemental_gids", ["null"]), ("process_limits", ["null"]),
        ("no_new_privs", ["false"]), ("seccomp", ["null"]), ("apparmor", ["null"]),
        ("oom_score_adj", ["null"])]),
     ("workload_id", ["null"]), ("cgroupfs", ["null"]), ("namespaces", ["null"]),
     ("capabilities", ["null"])]

/-- The pieces as bytes; all characters are ASCII. -/
def attachPieces (_ : Config) : List (List UInt8) :=
  attachJson.map fun s => s.toList.map fun c => UInt8.ofNat c.toNat

def attachOne : AttachRequest := { (default : AttachRequest) with pid := 1 }

theorem attachPieces_lt : (attachPieces (.attach attachOne)).flatten.length < DEFAULT_BUF_SIZE := by
  decide +kernel

theorem attachPieces_ne_nil : (attachPieces (.attach attachOne)).flatten ≠ [] := by
  decide +kernel

theorem after_taken {data : List UInt8} (hne : data ≠ []) :
    fileRules.after emptyFile ([⟨.write data, .ok (Fin.last _)⟩] ++ [⟨.flush, .ok ()⟩]) =
      ⟨data, []⟩ := by
  show fileRules.next (fileRules.next emptyFile (.write data) (.ok (Fin.last _))) .flush (.ok ()) =
    ⟨data, []⟩
  rw [Sunk.next_taken hne]
  rfl

/-- On a disk with room the file is complete. -/
theorem writeConfig_complete_attach : ∃ h,
    (writeConfig attachPieces attachOne).Runs h (.ok ()) ∧
      (fileRules.after emptyFile h).content = (attachPieces (.attach attachOne)).flatten := by
  have hr : (writeConfig attachPieces attachOne).Runs _ _ :=
    writeConfig_runs_of_lt rfl rfl attachPieces_lt (drain_runs_taken attachPieces_ne_nil)
  refine ⟨_, hr, (writeConfig_complete_iff rfl hr).2 (.inl ?_) rfl⟩
  rw [after_taken attachPieces_ne_nil]
  exact fun o ho => absurd ho List.not_mem_nil

/-- On a full disk the file stays empty, and `write_config` returns `Ok`. -/
theorem writeConfig_incomplete_attach : ∃ h,
    (writeConfig attachPieces attachOne).Runs h (.ok ()) ∧
      (fileRules.after emptyFile h).content ≠ (attachPieces (.attach attachOne)).flatten := by
  have hr : (writeConfig attachPieces attachOne).Runs _ _ :=
    writeConfig_runs_of_lt rfl rfl attachPieces_lt
      (drain_runs_error attachPieces_ne_nil (.os ⟨28⟩))
  exact ⟨_, hr, attachPieces_ne_nil.symm⟩

end Styrolite.Runner
