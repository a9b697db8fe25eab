import WireSchema.Proofs.FileTree
import Mathlib.Data.List.Forall2
import Mathlib.Data.List.Nodup

/-! # What the command that emits code does

`Plan` says what the command is going to do with a tree of files: which settings are in effect, and
which files come of them or why it fails. All of it is settled before anything is written, so that a
command that fails by its plan leaves the tree as it was, and one that does not writes the files of
the plan and nothing else (`runGenerate_effect`). -/

namespace WireSchema

/-! ### Emitted files -/

section Files

open Command.FileTree

variable {settings : EmitSettings} {s : Schema} {languages : List Language}

/-- The names of the files of a language. -/
def Language.fileNames : Language → List String
  | .rust => ["lib.rs"]
  | .typeScript => ["types.ts", "serializer.ts", "index.ts"]
  | .cpp => ["protocol.hpp", "protocol.cpp"]

theorem Schema.map_path_emitIn (settings : EmitSettings) (s : Schema) (language : Language) :
    (s.emitIn settings language).map (·.path) = language.fileNames := by
  cases language <;> rfl

theorem Schema.mem_emit {file : OutputFile} (h : file ∈ s.emit settings languages) :
    ∃ language ∈ languages, ∃ emitted ∈ s.emitIn settings language,
      file = { emitted with path := language.dirName ++ "/" ++ emitted.path } := by
  obtain ⟨language, hl, hfile⟩ := List.mem_flatMap.1 h
  obtain ⟨emitted, hemitted, rfl⟩ := List.mem_map.1 hfile
  exact ⟨language, hl, emitted, hemitted, rfl⟩

theorem Schema.mem_fileNames {language : Language} {file : OutputFile}
    (h : file ∈ s.emitIn settings language) : file.path ∈ language.fileNames := by
  rw [← Schema.map_path_emitIn settings s]
  exact List.mem_map_of_mem h

theorem Language.names_emitted (language : Language) :
    ∀ name ∈ language.fileNames,
      names (language.dirName ++ "/" ++ name) = [language.dirName, name] ∧
      IsPlain language.dirName ∧ IsPlain name := by
  unfold IsPlain
  cases language <;> decide +kernel

theorem Schema.plainPath_of_mem_emit {file : OutputFile} (h : file ∈ s.emit settings languages) :
    PlainPath file.path := by
  obtain ⟨language, -, emitted, hemitted, rfl⟩ := Schema.mem_emit h
  obtain ⟨hnames, hdir, hname⟩ := language.names_emitted _ (Schema.mem_fileNames hemitted)
  intro name hmem
  rw [hnames] at hmem
  rcases List.mem_pair.1 hmem with rfl | rfl
  · exact hdir
  · exact hname

/-- Files at the same place have the same content. -/
theorem Schema.content_eq_of_mem_emit {file other : OutputFile}
    (h : file ∈ s.emit settings languages) (h' : other ∈ s.emit settings languages)
    (hnames : names file.path = names other.path) : file.content = other.content := by
  obtain ⟨language, -, emitted, hemitted, rfl⟩ := Schema.mem_emit h
  obtain ⟨language', -, emitted', hemitted', rfl⟩ := Schema.mem_emit h'
  rw [(language.names_emitted _ (Schema.mem_fileNames hemitted)).1,
    (language'.names_emitted _ (Schema.mem_fileNames hemitted')).1] at hnames
  obtain ⟨hdir, hpath⟩ : language.dirName = language'.dirName ∧ emitted.path = emitted'.path := by
    simpa using hnames
  have hlanguage : language = language' := by
    cases language <;> cases language' <;> first | rfl | exact absurd hdir (by decide)
  subst hlanguage
  have hnodup : ((s.emitIn settings language).map (·.path)).Nodup := by
    rw [Schema.map_path_emitIn]
    cases language <;> decide
  rw [List.inj_on_of_nodup_map hnodup hemitted hemitted' hpath]

theorem Schema.emit_ne_nil (settings : EmitSettings) (s : Schema) (h : languages ≠ []) :
    s.emit settings languages ≠ [] := by
  obtain ⟨language, rest, rfl⟩ := List.exists_cons_of_ne_nil h
  intro hnil
  have hempty : s.emitIn settings language = [] := by
    simpa using (List.flatMap_eq_nil_iff.1 hnil) language List.mem_cons_self
  have hnames := Schema.map_path_emitIn settings s language
  rw [hempty] at hnames
  cases language <;> cases hnames

end Files

namespace Command

/-! ### Plans -/

/-- The settings that a tree has for the options: those in the given file, or in the file of the
usual name if it is there. What a text of settings means is up to `parse`. -/
inductive SettingsIn (parse : String → Option Settings) (t : FileTree) :
    Option String → Except Fault Settings → Prop
  | missing {path : String} (hread : t.readText path = none) :
    SettingsIn parse t (some path) (.error (.readSettings path))
  | invalid {path text : String} (hread : t.readText path = some text)
    (hs : parse text = none) : SettingsIn parse t (some path) (.error (.parseSettings path))
  | given {path text : String} {s : Settings} (hread : t.readText path = some text)
    (hs : parse text = some s) : SettingsIn parse t (some path) (.ok s)
  | usual {result : Except Fault Settings} (hpresent : t.isPresent "tbs.toml" = true)
    (hs : SettingsIn parse t (some "tbs.toml") result) : SettingsIn parse t none result
  | absent (hpresent : t.isPresent "tbs.toml" = false) : SettingsIn parse t none (.ok .empty)

/-- The languages of the options, else those of the settings, else all three. -/
inductive LanguagesFrom (o : GenerateOptions) (s : Settings) : List Language → Prop
  | options (ho : o.languages ≠ []) : LanguagesFrom o s o.languages
  | settings {languages : List Language} (ho : o.languages = []) (hs : s.languages ≠ [])
    (hnames : List.Forall₂ (fun name language => Language.ofName name = .ok language) s.languages
      languages) : LanguagesFrom o s languages
  | default (ho : o.languages = []) (hs : s.languages = []) :
    LanguagesFrom o s [.rust, .typeScript, .cpp]

/-- A job is what options and settings ask for: the option counts before the setting, and the
setting before the default. -/
structure Effective (o : GenerateOptions) (s : Settings) (job : Job) : Prop where
  input : o.input.or s.input = some job.input
  output : job.output = (o.output.or s.output).getD "generated"
  languages : LanguagesFrom o s job.languages
  protocolVersion : job.settings.protocolVersion = o.protocolVersion.or s.protocolVersion
  runtimeCrate : job.settings.runtimeCrate = s.runtimeCrate.getD "tbs_wire"
  cppNamespace : job.settings.cppNamespace = s.cppNamespace

/-- What the command is going to do: fail, or write files for a job. -/
inductive Plan (parse : String → Option Settings) (t : FileTree) (o : GenerateOptions) (now : Nat) :
    Except Fault (Job × List OutputFile) → Prop
  | settings {fault : Fault} (hs : SettingsIn parse t o.config (.error fault)) :
    Plan parse t o now (.error fault)
  | noInput {s : Settings} (hs : SettingsIn parse t o.config (.ok s)) (ho : o.input = none)
    (hinput : s.input = none) : Plan parse t o now (.error .noInput)
  | unknownLanguage {s : Settings} {name key : String} {front rest : List String}
    (hs : SettingsIn parse t o.config (.ok s)) (hinput : (o.input.or s.input).isSome)
    (ho : o.languages = []) (hnames : s.languages = front ++ name :: rest)
    (hfront : ∀ name ∈ front, ∃ language, Language.ofName name = .ok language)
    (hname : Language.ofName name = .error key) : Plan parse t o now (.error (.unknownLanguage key))
  | readSchema {s : Settings} {job : Job} (hs : SettingsIn parse t o.config (.ok s))
    (hjob : Effective o s job) (hread : t.readText job.input = none) :
    Plan parse t o now (.error (.readSchema job.input))
  | compile {s : Settings} {job : Job} {text : String} {e : CompileError}
    (hs : SettingsIn parse t o.config (.ok s)) (hjob : Effective o s job)
    (hread : t.readText job.input = some text)
    (hcompile : WireSchema.compile job.settings job.languages text (baseName job.input) now =
      .error e) : Plan parse t o now (.error (.compile e))
  | files {s : Settings} {job : Job} {text : String} {files : List OutputFile}
    (hs : SettingsIn parse t o.config (.ok s)) (hjob : Effective o s job)
    (hread : t.readText job.input = some text)
    (hcompile : WireSchema.compile job.settings job.languages text (baseName job.input) now =
      .ok files) : Plan parse t o now (.ok (job, files))

/-! ### Settings in effect -/

section Settings

variable {t : FileTree} {o : GenerateOptions} {s : Settings}

theorem exists_settingsIn (parse : String → Option Settings) (t : FileTree)
    (config : Option String) : ∃ result, SettingsIn parse t config result := by
  have hgiven (path : String) : ∃ result, SettingsIn parse t (some path) result := by
    cases hread : t.readText path with
    | none => exact ⟨_, .missing hread⟩
    | some text =>
      cases hs : parse text with
      | none => exact ⟨_, .invalid hread hs⟩
      | some s => exact ⟨_, .given hread hs⟩
  cases config with
  | some path => exact hgiven path
  | none =>
    cases hpresent : t.isPresent "tbs.toml" with
    | false => exact ⟨_, .absent hpresent⟩
    | true =>
      obtain ⟨result, hs⟩ := hgiven "tbs.toml"
      exact ⟨result, .usual hpresent hs⟩

theorem mapM_ofName_of_forall₂ {names : List String} {languages : List Language}
    (h : List.Forall₂ (fun name language => Language.ofName name = .ok language) names languages) :
    names.mapM Language.ofName = .ok languages := by
  induction h with
  | nil => rfl
  | cons hname _ ih =>
    rw [List.mapM_cons, hname, ih]
    rfl

theorem mapM_ofName_of_unknown {name key : String} {front : List String} (rest : List String)
    (hfront : ∀ name ∈ front, ∃ language, Language.ofName name = .ok language)
    (hname : Language.ofName name = .error key) :
    (front ++ name :: rest).mapM Language.ofName = .error key := by
  induction front with
  | nil =>
    rw [List.nil_append, List.mapM_cons, hname]
    rfl
  | cons first front ih =>
    obtain ⟨language, hfirst⟩ := hfront first List.mem_cons_self
    rw [List.cons_append, List.mapM_cons, hfirst,
      ih fun name hn => hfront name (List.mem_cons_of_mem _ hn)]
    rfl

/-- All names are languages, or there is a first one that is none. -/
theorem exists_languages (names : List String) :
    (∃ languages, List.Forall₂ (fun name language => Language.ofName name = .ok language) names
      languages) ∨
    ∃ front name rest key, names = front ++ name :: rest ∧
      (∀ name ∈ front, ∃ language, Language.ofName name = .ok language) ∧
      Language.ofName name = .error key := by
  induction names with
  | nil => exact Or.inl ⟨[], .nil⟩
  | cons name names ih =>
    cases hname : Language.ofName name with
    | error key => exact Or.inr ⟨[], name, names, key, rfl, by simp, hname⟩
    | ok language =>
      rcases ih with ⟨languages, hall⟩ | ⟨front, other, rest, key, rfl, hfront, hother⟩
      · exact Or.inl ⟨language :: languages, .cons hname hall⟩
      · refine Or.inr ⟨name :: front, other, rest, key, rfl, ?_, hother⟩
        exact List.forall_mem_cons.2 ⟨⟨language, hname⟩, hfront⟩

theorem languagesInEffect_eq {languages : List Language} (h : LanguagesFrom o s languages) :
    languagesInEffect o s = .ok languages := by
  unfold languagesInEffect Settings.languages?
  cases h with
  | options ho => rw [if_neg (by simpa using ho)]
  | settings ho hs hnames =>
    have hne : languages ≠ [] := by
      rintro rfl
      exact hs (List.forall₂_nil_right_iff.1 hnames)
    rw [if_pos (by simpa using ho), mapM_ofName_of_forall₂ hnames]
    simp [hne]
  | default ho hs =>
    rw [if_pos (by simpa using ho), hs]
    rfl

theorem LanguagesFrom.ne_nil {languages : List Language} (h : LanguagesFrom o s languages) :
    languages ≠ [] := by
  cases h with
  | options ho => exact ho
  | settings _ hs hnames =>
    rintro rfl
    exact hs (List.forall₂_nil_right_iff.1 hnames)
  | default => simp

theorem Effective.of_eq {job : Job} (h : Effective o s job) : Job.of o s = .ok job := by
  have hsettings : { s.emitSettings with
      protocolVersion := o.protocolVersion.or s.protocolVersion } = job.settings := by
    rw [← h.protocolVersion, Settings.emitSettings, ← h.cppNamespace]
    show EmitSettings.mk _ (s.runtimeCrate.getD "tbs_wire") _ = _
    rw [← h.runtimeCrate]
  unfold Job.of
  rw [h.input, languagesInEffect_eq h.languages]
  dsimp only
  rw [hsettings, ← h.output]

/-- Options and settings with an input and known languages make a job. -/
theorem exists_effective {input : String} {languages : List Language}
    (hinput : o.input.or s.input = some input) (hlanguages : LanguagesFrom o s languages) :
    ∃ job, Effective o s job :=
  ⟨⟨input, (o.output.or s.output).getD "generated", languages,
    ⟨o.protocolVersion.or s.protocolVersion, s.runtimeCrate.getD "tbs_wire", s.cppNamespace⟩⟩,
    hinput, rfl, hlanguages, rfl, rfl, rfl⟩

theorem exists_plan (parse : String → Option Settings) (t : FileTree) (o : GenerateOptions)
    (now : Nat) : ∃ plan, Plan parse t o now plan := by
  obtain ⟨result, hs⟩ := exists_settingsIn parse t o.config
  cases result with
  | error fault => exact ⟨_, .settings hs⟩
  | ok s =>
    have hjob : ∀ job, Effective o s job → ∃ plan, Plan parse t o now plan := by
      intro job hjob
      cases hread : t.readText job.input with
      | none => exact ⟨_, .readSchema hs hjob hread⟩
      | some text =>
        cases hcompile : WireSchema.compile job.settings job.languages text
          (baseName job.input) now with
        | error e => exact ⟨_, .compile hs hjob hread hcompile⟩
        | ok files => exact ⟨_, .files hs hjob hread hcompile⟩
    cases hinput : o.input.or s.input with
    | none =>
      obtain ⟨ho, hinput⟩ := Option.or_eq_none_iff.1 hinput
      exact ⟨_, .noInput hs ho hinput⟩
    | some input =>
      by_cases ho : o.languages = []
      · rcases exists_languages s.languages with
          ⟨languages, hall⟩ | ⟨front, name, rest, key, hnames, hfront, hname⟩
        · have hlanguages : ∃ languages, LanguagesFrom o s languages := by
            by_cases hnone : s.languages = []
            · exact ⟨_, .default ho hnone⟩
            · exact ⟨_, .settings ho hnone hall⟩
          obtain ⟨languages, hlanguages⟩ := hlanguages
          obtain ⟨job, heffective⟩ := exists_effective hinput hlanguages
          exact hjob job heffective
        · exact ⟨_, .unknownLanguage hs (by simp [hinput]) ho hnames hfront hname⟩
      · obtain ⟨job, heffective⟩ := exists_effective hinput (.options ho)
        exact hjob job heffective

end Settings

/-! ### Runs -/

section Runs

variable {α β : Type} {parse : String → Option Settings} {t t' : FileTree} {o : GenerateOptions}
  {now : Nat}

theorem run_bind {x : StateM FileTree α} {f : α → StateM FileTree β} {a : α}
    (h : x t = (a, t')) : (x >>= f) t = f a t' := by
  show f (x t).1 (x t).2 = _
  rw [h]

theorem readText_run (t : FileTree) (path : String) :
    FileSystem.inMemory.readText path t = (t.readText path, t) := rfl

theorem isPresent_run (t : FileTree) (path : String) :
    FileSystem.inMemory.isPresent path t = (t.isPresent path, t) := rfl

theorem change_run {f : FileTree → Option FileTree} (h : f t = some t') :
    change f t = (true, t') := by
  rw [change, h]

theorem makeDirs_run {path : String} (h : t.makeDirs path = some t') :
    FileSystem.inMemory.makeDirs path t = (true, t') :=
  change_run (f := (·.makeDirs path)) h

theorem writeText_run {path text : String} (h : t.writeText path text = some t') :
    FileSystem.inMemory.writeText path text t = (true, t') :=
  change_run (f := (·.writeText path text)) h

theorem loadSettings_run {config : Option String} {result : Except Fault Settings}
    (h : SettingsIn parse t config result) :
    loadSettings FileSystem.inMemory parse config t = (result, t) := by
  induction h with
  | @missing path hread =>
    show readSettings FileSystem.inMemory parse path t = _
    rw [readSettings, run_bind (readText_run t path), hread]
    rfl
  | @invalid path text hread hs =>
    show readSettings FileSystem.inMemory parse path t = _
    rw [readSettings, run_bind (readText_run t path), hread]
    dsimp only
    rw [hs]
    rfl
  | @given path text s hread hs =>
    show readSettings FileSystem.inMemory parse path t = _
    rw [readSettings, run_bind (readText_run t path), hread]
    dsimp only
    rw [hs]
    rfl
  | usual hpresent _ ih =>
    rw [loadSettings, Settings.fileName, run_bind (isPresent_run t "tbs.toml"), hpresent,
      if_pos rfl]
    exact ih
  | absent hpresent =>
    rw [loadSettings, Settings.fileName, run_bind (isPresent_run t "tbs.toml"), hpresent,
      if_neg Bool.false_ne_true]
    rfl

theorem loadJob_run {s : Settings} (h : SettingsIn parse t o.config (.ok s)) :
    loadJob FileSystem.inMemory parse o t = (Job.of o s, t) := by
  unfold loadJob
  rw [run_bind (loadSettings_run h)]
  rfl

theorem loadJob_of_effective {s : Settings} {job : Job} (hs : SettingsIn parse t o.config (.ok s))
    (hjob : Effective o s job) : loadJob FileSystem.inMemory parse o t = (.ok job, t) := by
  rw [loadJob_run hs, hjob.of_eq]

theorem writeFiles_run {directory : String} {files : List OutputFile}
    (h : FileTree.Writes directory t files t') :
    writeFiles FileSystem.inMemory directory files t = (none, t') := by
  induction h with
  | nil t => rfl
  | @cons t t₁ t₂ t₃ file files hdirs hwrite _ ih =>
    have hfile : writeFile FileSystem.inMemory directory file t = (none, t₂) := by
      unfold writeFile
      rw [run_bind (makeDirs_run hdirs), if_pos rfl, run_bind (writeText_run hwrite), if_pos rfl]
      rfl
    rw [writeFiles, run_bind hfile]
    exact ih

theorem emitJob_of_none {job : Job} (hread : t.readText job.input = none) :
    emitJob FileSystem.inMemory job now t = (.error (.readSchema job.input), t) := by
  rw [emitJob, run_bind (readText_run t job.input), hread]
  rfl

theorem emitJob_of_some {job : Job} {text : String} (hread : t.readText job.input = some text) :
    emitJob FileSystem.inMemory job now t =
      ((compile job.settings job.languages text (baseName job.input) now).mapError .compile,
        t) := by
  rw [emitJob, run_bind (readText_run t job.input), hread]
  dsimp only
  cases compile job.settings job.languages text (baseName job.input) now <;> rfl

theorem runGenerate_of_loadJob {fault : Fault}
    (hload : loadJob FileSystem.inMemory parse o t = (.error fault, t)) :
    runGenerate FileSystem.inMemory parse o now t = (.error fault, t) := by
  rw [runGenerate, run_bind hload]
  rfl

theorem runGenerate_of_emitJob {job : Job} {fault : Fault}
    (hload : loadJob FileSystem.inMemory parse o t = (.ok job, t))
    (hemit : emitJob FileSystem.inMemory job now t = (.error fault, t)) :
    runGenerate FileSystem.inMemory parse o now t = (.error fault, t) := by
  rw [runGenerate, run_bind hload]
  dsimp only
  rw [run_bind hemit]
  rfl

/-- A command that fails by its plan leaves the tree as it was. -/
theorem runGenerate_of_error {fault : Fault} (h : Plan parse t o now (.error fault)) :
    runGenerate FileSystem.inMemory parse o now t = (.error fault, t) := by
  cases h with
  | settings hs =>
    refine runGenerate_of_loadJob ?_
    rw [loadJob, run_bind (loadSettings_run hs)]
    rfl
  | noInput hs ho hinput =>
    refine runGenerate_of_loadJob ?_
    rw [loadJob_run hs, Job.of, ho, hinput]
    rfl
  | unknownLanguage hs hinput ho hnames hfront hname =>
    obtain ⟨input, hinput⟩ := Option.isSome_iff_exists.1 hinput
    refine runGenerate_of_loadJob ?_
    rw [loadJob_run hs, Job.of, hinput, languagesInEffect, if_pos (by simp [ho]),
      Settings.languages?, hnames, mapM_ofName_of_unknown _ hfront hname]
  | readSchema hs hjob hread =>
    exact runGenerate_of_emitJob (loadJob_of_effective hs hjob) (emitJob_of_none hread)
  | compile hs hjob hread hcompile =>
    refine runGenerate_of_emitJob (loadJob_of_effective hs hjob) ?_
    rw [emitJob_of_some hread, hcompile]
    rfl

theorem runGenerate_of_ok {job : Job} {files : List OutputFile}
    (h : Plan parse t o now (.ok (job, files))) (hwrites : FileTree.Writes job.output t files t') :
    runGenerate FileSystem.inMemory parse o now t = (.ok "", t') := by
  cases h with
  | files hs hjob hread hcompile =>
    have hemit : emitJob FileSystem.inMemory job now t = (.ok files, t) := by
      rw [emitJob_of_some hread, hcompile]
      rfl
    rw [runGenerate, run_bind (loadJob_of_effective hs hjob)]
    dsimp only
    rw [run_bind hemit]
    show (writeFiles FileSystem.inMemory job.output files >>= _) t = _
    rw [run_bind (writeFiles_run hwrites)]
    rfl

end Runs

/-! ### Effects -/

theorem Plan.files_eq {parse : String → Option Settings} {t : FileTree} {o : GenerateOptions}
    {now : Nat} {job : Job} {files : List OutputFile}
    (h : Plan parse t o now (.ok (job, files))) :
    job.languages ≠ [] ∧ ∃ s : Schema, files = s.emit job.settings job.languages := by
  cases h with
  | @files _ _ text _ hs hjob hread hcompile =>
    refine ⟨hjob.languages.ne_nil, ?_⟩
    unfold WireSchema.compile at hcompile
    split at hcompile
    · cases hcompile
    · cases hcompile
      exact ⟨_, rfl⟩

/-- **Nothing is written unless all is well, and then the emitted files and nothing else.** Whatever
the text of a settings file is taken to mean, every command has a plan. One that fails by its plan
leaves the tree as it was. Where making directories and writing files succeeds, any other one writes
the files of its plan below the directory for the output, and all other files are as they were. -/
theorem runGenerate_effect (parse : String → Option Settings) (t : FileTree) (o : GenerateOptions)
    (now : Nat) :
    (∃ plan, Plan parse t o now plan) ∧
    (∀ fault, Plan parse t o now (.error fault) →
      runGenerate FileSystem.inMemory parse o now t = (.error fault, t)) ∧
    ∀ job files t', Plan parse t o now (.ok (job, files)) → FileTree.Writes job.output t files t' →
      runGenerate FileSystem.inMemory parse o now t = (.ok "", t') ∧
      ∃ base, t'.follow (t'.start job.output) (FileTree.names job.output) = some base ∧
        (∀ file ∈ files,
          t'.file? (base ++ FileTree.names file.path) = some (Utf8.ofString file.content)) ∧
        ∀ l, (∀ file ∈ files, l ≠ base ++ FileTree.names file.path) → t'.file? l = t.file? l := by
  refine ⟨exists_plan parse t o now, fun fault => runGenerate_of_error, ?_⟩
  intro job files t' hplan hwrites
  refine ⟨runGenerate_of_ok hplan hwrites, ?_⟩
  obtain ⟨hlanguages, s, rfl⟩ := hplan.files_eq
  obtain ⟨base, hbase⟩ := hwrites.exists_base (Schema.emit_ne_nil _ s hlanguages) fun file hf =>
    Schema.plainPath_of_mem_emit hf
  refine ⟨base, hbase, hwrites.file? (fun file hf => Schema.plainPath_of_mem_emit hf) ?_ hbase⟩
  exact fun file hf other ho => Schema.content_eq_of_mem_emit hf ho

/-- A tree with settings and a schema, in the directory of the program. -/
def sampleTree : FileTree :=
  .ofFiles ["home"] [
    (["tbs.toml"], Utf8.ofString "input = 'a.tbs'\noutput = 'gen/'\nprotocol_version = '1'\n"),
    (["a.tbs"], Utf8.ofString "enum Mode \x7b On \x7d")]

/-- The schema in `sampleTree`. -/
def sampleMode : Schema :=
  ⟨"", [⟨"Mode", [⟨"On", 0, none⟩], [], none, ⟨1, 6⟩⟩], [], ⟨"a.tbs", 0, none⟩⟩

/-- Options that leave the paths to the settings. -/
def sampleOptions : GenerateOptions := ⟨none, none, [.rust], some "2", none⟩

/-- The job for `sampleOptions` in `sampleTree`. -/
def sampleJob : Job := ⟨"a.tbs", "gen/", [.rust], ⟨some "2", "tbs_wire", none⟩⟩

theorem settingsIn_sampleTree : SettingsIn Settings.ofText? sampleTree sampleOptions.config
    (.ok ⟨some "a.tbs", some "gen/", [], some "1", none, none⟩) := by
  have hread : sampleTree.readText "tbs.toml" =
      some "input = 'a.tbs'\noutput = 'gen/'\nprotocol_version = '1'\n" := by decide +kernel
  exact .usual (by decide +kernel) (.given hread (by decide +kernel))

theorem plan_sampleTree : Plan Settings.ofText? sampleTree sampleOptions 0 (.ok (sampleJob,
    (sampleMode.withVersion sampleJob.settings).emit sampleJob.settings [.rust])) := by
  have hread : sampleTree.readText sampleJob.input = some "enum Mode \x7b On \x7d" := by
    decide +kernel
  have hschema : Schema.ofText "enum Mode \x7b On \x7d" "a.tbs" 0 = .ok sampleMode := by
    decide +kernel
  have hname : baseName sampleJob.input = "a.tbs" := by decide +kernel
  refine .files settingsIn_sampleTree ⟨rfl, rfl, .options (by decide), rfl, rfl, rfl⟩ hread ?_
  rw [WireSchema.compile, hname, hschema]
  rfl

/-- `sampleTree` with the file for `sampleJob` in it. -/
def sampleTreeAfter : FileTree where
  current := ["home"]
  files := (["home", "gen", "rust", "lib.rs"], Utf8.ofString <| Emit.join <|
    Emit.Rust.head sampleJob.settings (sampleMode.withVersion sampleJob.settings) ++
      Emit.Rust.items (sampleMode.withVersion sampleJob.settings)) :: sampleTree.files
  dirs := [["home", "gen", "rust"], ["home", "gen"], ["home"]]

theorem writes_sampleTree : FileTree.Writes "gen/" sampleTree
    ((sampleMode.withVersion sampleJob.settings).emit sampleJob.settings [.rust])
    sampleTreeAfter := by
  have hpath : below "gen/" ("rust" ++ "/" ++ "lib.rs") = "gen/rust/lib.rs" := by decide +kernel
  have hdirs : sampleTree.makeDirs (parent "gen/rust/lib.rs") =
      some { sampleTree with dirs := sampleTreeAfter.dirs } := by decide +kernel
  have hplace : { sampleTree with dirs := sampleTreeAfter.dirs }.locate "gen/rust/lib.rs" =
      some ["home", "gen", "rust", "lib.rs"] := by decide +kernel
  have hfree : ¬ { sampleTree with dirs := sampleTreeAfter.dirs }.isDir
      ["home", "gen", "rust", "lib.rs"] = true := by decide +kernel
  refine .cons (hpath ▸ hdirs) ?_ (.nil _)
  show FileTree.writeText _ (below "gen/" ("rust" ++ "/" ++ "lib.rs")) _ = _
  rw [hpath, FileTree.writeText, hplace]
  exact if_neg hfree

theorem runGenerate_effect_sampleTree :
    runGenerate FileSystem.inMemory Settings.ofText? sampleOptions 0 sampleTree =
      (.ok "", sampleTreeAfter) ∧
    (∀ l, l ≠ ["home", "gen", "rust", "lib.rs"] → sampleTreeAfter.file? l = sampleTree.file? l) ∧
    runGenerate FileSystem.inMemory Settings.ofText?
      { sampleOptions with config := some "other.toml" } 0 sampleTree =
      (.error (.readSettings "other.toml"), sampleTree) := by
  obtain ⟨-, -, hwrite⟩ := runGenerate_effect Settings.ofText? sampleTree sampleOptions 0
  obtain ⟨-, hfail, -⟩ := runGenerate_effect Settings.ofText? sampleTree
    { sampleOptions with config := some "other.toml" } 0
  obtain ⟨hrun, base, hbase, -, hframe⟩ := hwrite _ _ _ plan_sampleTree writes_sampleTree
  have hhome : sampleTreeAfter.follow (sampleTreeAfter.start "gen/") (FileTree.names "gen/") =
      some ["home", "gen"] := by decide +kernel
  obtain rfl : base = ["home", "gen"] := Option.some.inj (hbase.symm.trans hhome)
  refine ⟨hrun, fun l hl => hframe l fun file hfile => ?_, hfail _ (.settings (.missing ?_))⟩
  · cases hfile with
    | head => exact hl
    | tail _ h => cases h
  · decide +kernel

end Command

end WireSchema
