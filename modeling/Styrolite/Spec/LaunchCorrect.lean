import Styrolite.Native.Launch
import Styrolite.Spec.RunnerCorrect

/-!
# What is started is what was asked for

The end of a configuration file may be lost without an error. What is then left of
it is no configuration, so the `styrolite` that is started with it does nothing;
and if nothing is lost, it runs `wrap` of the very configuration that `Runner` was
given (`Runner.launch`). What `serde_json` is relied upon for is that it reads back
what it has written, and nothing from a text that has lost its end (`Restores`).

## Key results

- `Runner.launch`: the started styrolite runs `wrap` of the given configuration or nothing
-/

namespace Styrolite.Runner

open Prog LocalRules BufWriter Interface

/-! ## The file -/

/-- If no error is reported, the file holds the encoding up to some point. -/
theorem writeEncoding_initial (pieces : List (List UInt8)) :
    fileRules.Ends emptyFile (writeEncoding pieces)
      (fun _ s => s.content <+: pieces.flatten) fun _ => True := by
  refine .bind ((writePieces_ends (new_fits _) pieces).mono (fun r s hpost => ?_)
    fun _ hno => hno.elim)
  rcases hpost with ⟨rfl, -, hcontent⟩ | ⟨e, w, o, rfl, -, -, -⟩
  · have hflat : s.content ++ ((BufWriter.new DEFAULT_BUF_SIZE).acceptAll pieces).buf =
        pieces.flatten := hcontent
    refine .bind (drop_ends.mono (fun _ s' hpost => .pure ?_) fun _ hno => hno.elim)
    rcases hpost with rfl | ⟨done, rest, hsplit, -, rfl⟩
    · exact ⟨[], by rw [Sunk.take_content, hflat, List.append_nil]⟩
    · refine ⟨rest, ?_⟩
      rw [Sunk.fail_content, Sunk.take_content, List.append_assoc, ← hsplit, hflat]
  · exact .bind (drop_ends.mono (fun _ s' _ => .fail trivial) fun _ hno => hno.elim)

section

variable {T : Type} [Configurable T] {pieces : Config → List (List UInt8)} {executable : String}
  {config : T} {encap : Config} {path : String}
  {h : List (host.or (sink UInt8 IoError)).Event}

/-- What the file holds after the calls. -/
def contentAfter (h : List (host.or (sink UInt8 IoError)).Event) : List UInt8 :=
  (fileRules.after emptyFile (rights h)).content

/-- So it is with the file of a configuration. -/
theorem writeConfig_initial {hf : List (sink UInt8 IoError).Event}
    (hencap : Configurable.encapsulate config = .ok encap)
    (hr : (writeConfig pieces config).Runs hf (.ok ())) :
    (fileRules.after emptyFile hf).content <+: (pieces encap).flatten := by
  rcases writeConfig_runs hencap hr with ⟨hne, -⟩ | ⟨h', hrun, ⟨-, rfl⟩ | ⟨e, hne, -⟩⟩
  · exact absurd rfl hne
  · have hafter : fileRules.after emptyFile (h' ++ [⟨.flush, .ok ()⟩]) =
        fileRules.after emptyFile h' := after_append _ _ _ _
    rw [hafter]
    exact writeEncoding_initial (pieces encap) h' _ (Sunk.lawful _ _) hrun
  · exact absurd rfl hne

/-- A finished file has been created and written. -/
theorem configFile_runs (hr : (configFile pieces config).Runs h (.ok path)) :
    ∃ hf, (writeConfig pieces config).Runs hf (.ok ()) ∧
      h = Event.inl (I := host) ⟨.tempFile "styrolite-cfg-" ".json", .ok path⟩ ::
        hf.map Event.inr := by
  obtain ⟨a, h', rfl, hr'⟩ := runs_sysInl_bind.1 hr
  cases a with
  | error e => cases (runs_fail.1 hr').2
  | ok p =>
    have hwrite : ((writeConfig pieces config).inr >>= fun _ => pure p : Host String).Runs h'
        (.ok path) := hr'
    obtain ⟨⟨⟩, h₁, h₂, hrun, hpure, rfl⟩ := runs_bind_ok.1 hwrite
    obtain ⟨rfl, heq⟩ := runs_pure.1 hpure
    cases heq
    obtain ⟨hf, hf', rfl⟩ := runs_inr.1 hrun
    exact ⟨hf, hf', by rw [List.append_nil]⟩

/-- It is the beginning of the encoding at least. -/
theorem contentAfter_initial (hencap : Configurable.encapsulate config = .ok encap)
    (hr : (configFile pieces config).Runs h (.ok path)) :
    contentAfter h <+: (pieces encap).flatten := by
  obtain ⟨hf, hrun, rfl⟩ := configFile_runs hr
  rw [contentAfter, rights_inl, rights_map_inr]
  exact writeConfig_initial hencap hrun

/-- No program is started while the file is made. -/
theorem not_at_configFile {c : HostCall} (hc : ∀ b a, c ≠ .tempFile b a) :
    ¬ (configFile pieces config).At h (.inl c) := by
  intro hat
  rcases at_sysInl_bind.1 hat with ⟨-, heq⟩ | ⟨a, h', rfl, hrest⟩
  · cases heq
    exact hc _ _ rfl
  · cases a with
    | error e => exact at_fail hrest
    | ok p =>
      have hwrite : ((writeConfig pieces config).inr >>= fun _ => pure p : Host String).At h'
          (.inl c) := hrest
      rcases at_bind.1 hwrite with hin | ⟨⟨⟩, h₁, h₂, -, hpure, -⟩
      · obtain ⟨_, c', -, -, heq⟩ := at_inr.1 hin
        cases heq
      · exact at_pure hpure

/-- The process starts styrolite with a configuration file at `path`. -/
def Starts (pieces : Config → List (List UInt8)) (executable : String) (config : T)
    (h : List (host.or (sink UInt8 IoError)).Event) (path : String) : Prop :=
  (run pieces executable config).At h (.inl (.status executable path)) ∨
    (exec pieces executable config).At h (.inl (.exec executable path))

/-- By then the file is finished. -/
theorem Starts.configFile_runs (hstart : Starts pieces executable config h path) :
    (configFile pieces config).Runs h (.ok path) := by
  rcases hstart with hat | hat
  · rcases at_bind.1 hat with hin | ⟨p, h₁, h₂, hr, hrest, rfl⟩
    · exact absurd hin (not_at_configFile nofun)
    · rcases at_sysInl_bind.1 hrest with ⟨rfl, heq⟩ | ⟨a, h', rfl, hend⟩
      · cases heq
        rwa [List.append_nil]
      · -- After styrolite has ended there are no more calls
        cases a with
        | error e => exact absurd hend at_fail
        | ok status => cases status <;> exact absurd hend at_done
  · rcases at_bind.1 hat with hin | ⟨p, h₁, h₂, hr, hrest, rfl⟩
    · exact absurd hin (not_at_configFile nofun)
    · rcases at_sysInl_bind.1 hrest with ⟨rfl, heq⟩ | ⟨a, h', rfl, hend⟩
      · cases heq
        rwa [List.append_nil]
      · exact absurd hend at_fail

end

/-! ## The started program -/

/-- What is relied upon in `serde_json`: the text it writes for the configuration is parsed to it
    again, and no proper beginning of that text is parsed. -/
structure Restores (pieces : Config → List (List UInt8)) (parse : List UInt8 → Option Config)
    (c : Config) : Prop where
  whole : parse (pieces c).flatten = some c
  cut : ∀ s, s <+: (pieces c).flatten → s ≠ (pieces c).flatten → parse s = none

section

variable {parse : List UInt8 → Option Config} {path : String} {content : List UInt8}
  {config : Config}
  {h : List (files.or calls).Event} {q : Prog (files.or calls) Err Unit}

/-- Only the file with `content` in it is read. -/
def Reads (path : String) (content : List UInt8) (h : List (files.or calls).Event) : Prop :=
  ∀ r, Event.inl (I := files) ⟨.read path, r⟩ ∈ h → r = .ok content

/-- What `main` does with a file that may be read. -/
def loaded (path : String) (content : List UInt8) : List (files.or calls).Event :=
  [.inl (I := files) ⟨.pathExists path, true⟩, .inl (I := files) ⟨.read path, .ok content⟩]

/-- `main` goes on with `wrap` of the configuration it has read, or ends with an error before it
    has made a system call. -/
theorem styroliteMain_cases {args : List String} (hmain : (styroliteMain parse args).Reaches h q) :
    (∃ path content config hw q', args[1]? = some path ∧
      parse content = some config ∧
      config.wrap.Reaches hw q' ∧ h = loaded path content ++ hw.map Event.inr ∧ q = q'.inr) ∨
    rights h = [] ∧ ∀ r, q = .done r → ∃ e, r = .err e := by
  have hfail : ∀ {e : Err} {h' : List (files.or calls).Event} {q' : Prog (files.or calls) Err Unit},
      (Prog.fail e : Prog (files.or calls) Err Unit).Reaches h' q' →
      h' = [] ∧ ∀ r, q' = .done r → ∃ e, r = .err e := by
    intro e h' q' hr
    obtain ⟨rfl, rfl⟩ := reaches_done.1 hr
    refine ⟨rfl, fun r heq => ?_⟩
    cases heq
    exact ⟨e, rfl⟩
  unfold styroliteMain at hmain
  cases hpath : args[1]? with
  -- No path is given
  | none =>
    rw [hpath] at hmain
    obtain ⟨rfl, herr⟩ := hfail hmain
    exact .inr ⟨rfl, herr⟩
  | some path =>
    rw [hpath] at hmain
    rcases reaches_sysInl_bind.1 hmain with ⟨rfl, rfl⟩ | ⟨there, h₁, rfl, hr₁⟩
    · exact .inr ⟨rfl, fun r heq => nomatch heq⟩
    · cases there with
      -- The file is not there, or cannot be read
      | false =>
        obtain ⟨rfl, herr⟩ := hfail hr₁
        exact .inr ⟨rfl, herr⟩
      | true =>
        rcases reaches_sysInl_bind.1 hr₁ with ⟨rfl, rfl⟩ | ⟨raw, h₂, rfl, hr₂⟩
        · exact .inr ⟨rfl, fun r heq => nomatch heq⟩
        · cases raw with
          | error e =>
            obtain ⟨rfl, herr⟩ := hfail hr₂
            exact .inr ⟨rfl, herr⟩
          | ok content =>
            rw [check_ok, pure_bind] at hr₂
            cases hparse : parse content with
            -- The text is no request
            | none =>
              rw [hparse] at hr₂
              obtain ⟨rfl, herr⟩ := hfail hr₂
              exact .inr ⟨rfl, herr⟩
            -- The request is run
            | some config =>
              rw [hparse] at hr₂
              obtain ⟨hw, q', hwrap, rfl, rfl⟩ := reaches_inr.1 hr₂
              exact .inl ⟨path, content, config, hw, q', rfl, hparse, hwrap, rfl, rfl⟩

/-- With a file that is parsed, `main` comes to all that `wrap` comes to. -/
theorem styroliteMain_loaded {name : String} {hw : List Event} {q' : Sys Unit}
    (hparse : parse content = some config)
    (hwrap : config.wrap.Reaches hw q') :
    (styroliteMain parse [name, path]).Reaches (loaded path content ++ hw.map Event.inr) q'.inr := by
  refine reaches_sysInl_bind.2 (.inr ⟨true, _, rfl, ?_⟩)
  refine reaches_sysInl_bind.2 (.inr ⟨.ok content, _, rfl, ?_⟩)
  rw [check_ok, pure_bind, hparse]
  exact hwrap.inr

end

section

variable {T : Type} [Configurable T] {pieces : Config → List (List UInt8)}
  {parse : List UInt8 → Option Config} {executable : String} {config : T} {encap : Config}
  {path : String} {h : List (host.or (sink UInt8 IoError)).Event}

/-- What reads the file goes on with `wrap` of the configuration, or makes no system call. -/
theorem styroliteMain_started (hencap : Configurable.encapsulate config = .ok encap)
    (hserde : Restores pieces parse encap) (hstart : Starts pieces executable config h path)
    {hm : List (files.or calls).Event} {q : Prog (files.or calls) Err Unit}
    (hread : Reads path (contentAfter h) hm)
    (hmain : (styroliteMain parse [executable, path]).Reaches hm q) :
    (contentAfter h = (pieces encap).flatten ∧ ∃ hw q', encap.wrap.Reaches hw q' ∧
      hm = loaded path (contentAfter h) ++ hw.map Event.inr ∧ q = q'.inr) ∨
    rights hm = [] ∧ ∀ r, q = .done r → ∃ e, r = .err e := by
  have hinitial := contentAfter_initial hencap hstart.configFile_runs
  rcases styroliteMain_cases hmain with ⟨path', content, c, hw, q', hpath, hc, hwrap, rfl, rfl⟩ |
    hno
  · cases hpath
    cases hread (.ok content) (by simp [loaded])
    -- What can be parsed has not lost its end, and so it is the configuration
    have hwhole : contentAfter h = (pieces encap).flatten := by
      by_contra hne
      rw [hserde.cut _ hinitial hne] at hc
      cases hc
    rw [hwhole, hserde.whole] at hc
    cases hc
    exact .inl ⟨hwhole, hw, q', hwrap, rfl, rfl⟩
  · exact .inr hno

/-- Whatever has happened to the configuration file without an error, the styrolite that is
    started runs `wrap` of the given configuration, and only if the file is complete; else it
    ends with an error before its first system call. -/
theorem launch (hencap : Configurable.encapsulate config = .ok encap)
    (hserde : Restores pieces parse encap) (hstart : Starts pieces executable config h path) :
    (∀ hm q, Reads path (contentAfter h) hm →
      (styroliteMain parse [executable, path]).Reaches hm q →
      (contentAfter h = (pieces encap).flatten ∧ ∃ hw q', encap.wrap.Reaches hw q' ∧
        hm = loaded path (contentAfter h) ++ hw.map Event.inr ∧ q = q'.inr) ∨
      rights hm = [] ∧ ∀ r, q = .done r → ∃ e, r = .err e) ∧
    (contentAfter h = (pieces encap).flatten → ∀ hw q', encap.wrap.Reaches hw q' →
      (styroliteMain parse [executable, path]).Reaches
        (loaded path (contentAfter h) ++ hw.map Event.inr) q'.inr) := by
  refine ⟨fun hm q hread hmain => styroliteMain_started hencap hserde hstart hread hmain,
    fun hfull hw q' hwrap => ?_⟩
  rw [hfull]
  exact styroliteMain_loaded hserde.whole hwrap

end

/-! ## A short configuration -/

/-- Finds the configuration in its text, and nothing in the other texts. -/
def parseOnly (pieces : Config → List (List UInt8)) (c : Config) (s : List UInt8) :
    Option Config :=
  if s = (pieces c).flatten then some c else none

theorem restores_parseOnly (pieces : Config → List (List UInt8)) (c : Config) :
    Restores pieces (parseOnly pieces c) c :=
  ⟨if_pos rfl, fun _ _ hne => if_neg hne⟩

/-- Finds a request to attach to process 1 in the text that `serde_json` writes for it. -/
def parseAttach : List UInt8 → Option Config := parseOnly attachPieces (.attach attachOne)

/-- A configuration file that is written with the events `hf`. -/
theorem configFile_of_runs {T : Type} [Configurable T] {pieces : Config → List (List UInt8)}
    {config : T} (path : String) {hf : List (sink UInt8 IoError).Event}
    (hr : (writeConfig pieces config).Runs hf (.ok ())) :
    (configFile pieces config).Runs (Event.inl (I := host)
      ⟨.tempFile "styrolite-cfg-" ".json", .ok path⟩ :: hf.map Event.inr) (.ok path) := by
  refine runs_sysInl_bind.2 ⟨.ok path, _, rfl, ?_⟩
  have hwrite : ((writeConfig pieces config).inr >>= fun _ => pure path : Host String).Runs
      (hf.map Event.inr ++ []) (.ok path) := (runs_inr.2 ⟨hf, hr, rfl⟩).bind (.refl _)
  rwa [List.append_nil] at hwrite

/-- The file holds what was written after its path was made up. -/
theorem contentAfter_cons (c : HostCall) (a : c.Answer) (hf : List (sink UInt8 IoError).Event) :
    contentAfter (Event.inl (I := host) ⟨c, a⟩ :: hf.map Event.inr) =
      (fileRules.after emptyFile hf).content := by
  rw [contentAfter, rights_inl, rights_map_inr]

/-- On a full disk the file stays empty, and styrolite does nothing. -/
theorem launch_noSpace : ∃ h, Starts attachPieces "styrolite" attachOne h "/tmp/c.json" ∧
    contentAfter h = [] ∧ ∀ hm q, Reads "/tmp/c.json" [] hm →
      (styroliteMain parseAttach ["styrolite", "/tmp/c.json"]).Reaches hm q → rights hm = [] := by
  -- The disk is full, so nothing of the text is written
  have hr : (writeConfig attachPieces attachOne).Runs _ _ :=
    writeConfig_runs_of_lt rfl rfl attachPieces_lt
      (drain_runs_error attachPieces_ne_nil (.os ⟨28⟩))
  have hfile := configFile_of_runs "/tmp/c.json" hr
  have hstart : Starts attachPieces "styrolite" attachOne _ "/tmp/c.json" :=
    .inl (at_bind.2 (.inr ⟨_, _, [], hfile, at_sysInl_bind.2 (.inl ⟨rfl, rfl⟩),
      (List.append_nil _).symm⟩))
  have hempty := contentAfter_cons (.tempFile "styrolite-cfg-" ".json") (.ok "/tmp/c.json")
    ([⟨.write (attachPieces (.attach attachOne)).flatten, .error (.os ⟨28⟩)⟩] ++ [⟨.flush, .ok ()⟩])
  refine ⟨_, hstart, hempty, fun hm q hread hmain => ?_⟩
  have hlaunch := (launch rfl (restores_parseOnly _ _) hstart).1 hm q
  rw [hempty] at hlaunch
  rcases hlaunch hread hmain with ⟨htext, -⟩ | ⟨hno, -⟩
  · -- An empty file is not the text of a request
    exact absurd htext.symm attachPieces_ne_nil
  · exact hno

end Styrolite.Runner
