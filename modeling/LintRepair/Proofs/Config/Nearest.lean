import Mathlib.Data.List.Basic
import Mathlib.Tactic.Common
import LintRepair.Config.Load
import LintRepair.Proofs.Config.Acceptance
import LintRepair.Proofs.Path.Ancestors
import LintRepair.Proofs.Tree.Write

/-!
# The nearest configuration decides

Methods overwrite sources, so a configuration with something wrong in it must not be passed over for
one that is farther away, or for the defaults.  What a run uses is said here without searching.

* The nearest directory with a file is the one that is the fewest steps above the start
  (`IsNearest`), and searching finds it (`discover?_eq_some_iff`).  For a start without dots or
  links in its path, the directories above it are the beginnings of its location
  (`Path.above?_path`).
* A file is used exactly if its text is sound all through (`IsReadFrom`), and any other one is an
  error that names it (`IsFault`): `ofSource_eq_ok_iff`, `ofSource_eq_error_iff`.  All of this holds
  whatever reads the texts.
-/

namespace LintRepair.Config

variable {read : String → Option Config} {tree other : Tree} {start file path directory : Path}
  {source : ConfigSource} {config : Config} {error : ConfigError}

/-! ## The nearest file -/

/-- Whether a directory has a configuration file. -/
def HasFile (tree : Tree) (directory : Path) : Prop :=
  tree.isFile (directory.join fileName) = true

instance : Decidable (HasFile tree directory) :=
  inferInstanceAs (Decidable (_ = true))

/-- Whether a directory has a configuration file, and none on the way up to it from the start has
one. -/
def IsNearest (tree : Tree) (start directory : Path) : Prop :=
  ∃ steps, start.above? steps = some directory ∧ HasFile tree directory ∧
    ∀ fewer < steps, ∀ nearer ∈ start.above? fewer, ¬ HasFile tree nearer

theorem discover?_eq_map (tree : Tree) (start : Path) :
    discover? tree start =
      (start.ancestors.find? fun directory => tree.isFile (directory.join fileName)).map
        fun directory => directory.join fileName := by
  unfold discover?
  rw [List.find?_map]
  rfl

theorem discover?_eq_some_iff : discover? tree start = some file ↔
    ∃ directory, IsNearest tree start directory ∧ directory.join fileName = file := by
  rw [discover?_eq_map, Option.map_eq_some_iff]
  -- Positions among the ancestors are numbers of steps, so being found first is being nearest.
  refine exists_congr fun directory => and_congr_left fun _ => ?_
  rw [List.find?_eq_some_iff_getElem]
  constructor
  · intro h
    obtain ⟨hfile, steps, hsteps, hdirectory, hnone⟩ := h
    refine ⟨steps, ?_, hfile, ?_⟩
    · rw [← Path.getElem?_ancestors, List.getElem?_eq_getElem hsteps, hdirectory]
    · intro fewer hfewer nearer hnearer
      rw [← Path.getElem?_ancestors] at hnearer
      obtain ⟨_, rfl⟩ := List.getElem?_eq_some_iff.mp hnearer
      simpa [HasFile] using hnone fewer hfewer
  · intro h
    obtain ⟨steps, habove, hfile, hnone⟩ := h
    rw [← Path.getElem?_ancestors] at habove
    obtain ⟨hsteps, hdirectory⟩ := List.getElem?_eq_some_iff.mp habove
    refine ⟨hfile, steps, hsteps, hdirectory, ?_⟩
    intro fewer hfewer
    have hnearer : start.above? fewer = some start.ancestors[fewer] := by
      rw [← Path.getElem?_ancestors]
      exact List.getElem?_eq_getElem _
    simpa [HasFile] using hnone fewer hfewer _ hnearer

theorem discover?_eq_none_iff : discover? tree start = none ↔
    ∀ steps directory, start.above? steps = some directory → ¬ HasFile tree directory := by
  rw [discover?_eq_map, Option.map_eq_none_iff, List.find?_eq_none]
  constructor
  · intro h steps directory habove
    exact h directory (Path.mem_ancestors_iff.mpr ⟨steps, habove⟩)
  · intro h directory hdirectory
    obtain ⟨steps, habove⟩ := Path.mem_ancestors_iff.mp hdirectory
    exact h steps directory habove

/-! ## Sound files and others -/

/-- Whether a file says a configuration, and all of it is sound. -/
def IsReadFrom (read : String → Option Config) (tree : Tree) (path : Path) (config : Config) :
    Prop :=
  ∃ text settings, tree.readText path = .ok text ∧ read text = some config ∧
    config.settings = .ok settings

/-- What is wrong with the file of a source. -/
inductive IsFault (read : String → Option Config) (tree : Tree) (source : ConfigSource)
    (path : Path) : ConfigError → Prop where
  | notFound (hmissing : tree.pathExists path = false) :
      IsFault read tree source path (.notFound path)
  | unreadable {error : IoError} (hthere : tree.pathExists path = true)
      (hread : tree.readText path = .error error) :
      IsFault read tree source path (.unreadable path error)
  | malformed {text : String} (hread : tree.readText path = .ok text)
      (hparse : read text = none) : IsFault read tree source path (.malformed (some source))
  | invalid {text : String} {config : Config} {issues : List Issue}
      (hread : tree.readText path = .ok text) (hparse : read text = some config)
      (hsettings : config.settings = .error issues) :
      IsFault read tree source path (.invalid (some source) issues)

/-- Whatever is wrong with a file, the error names it. -/
theorem IsFault.path_eq (hfault : IsFault read tree source path error)
    (hpath : source.path? = some path) : error.path? = some path := by
  cases hfault with
  | notFound => rfl
  | unreadable => rfl
  | malformed => exact hpath
  | invalid => exact hpath

theorem pathExists_of_readText {text : String} (hread : tree.readText path = .ok text) :
    tree.pathExists path = true := by
  obtain ⟨place, mode, hlocate, hentry⟩ := Tree.readText_eq_ok_iff.mp hread
  unfold Tree.pathExists Tree.follow?
  rw [hlocate]
  simp only [hentry, Option.isSome_some]

theorem pathExists_of_isFile (hfile : tree.isFile path = true) : tree.pathExists path = true := by
  unfold Tree.isFile at hfile
  unfold Tree.pathExists
  cases hfollow : tree.follow? path with
  | none => simp [hfollow] at hfile
  | some entry => rfl

/-- A file is either sound all through or has one of the faults. -/
theorem isReadFrom_or_isFault (read : String → Option Config) (tree : Tree)
    (source : ConfigSource) (path : Path) :
    (∃ config, IsReadFrom read tree path config) ∨
      ∃ error, IsFault read tree source path error := by
  cases hread : tree.readText path with
  | error error =>
      right
      cases hthere : tree.pathExists path with
      | false => exact ⟨_, .notFound hthere⟩
      | true => exact ⟨_, .unreadable hthere hread⟩
  | ok text =>
      cases hparse : read text with
      | none => exact Or.inr ⟨_, .malformed hread hparse⟩
      | some config =>
          cases hsettings : config.settings with
          | ok settings => exact Or.inl ⟨config, text, settings, hread, hparse, hsettings⟩
          | error issues => exact Or.inr ⟨_, .invalid hread hparse hsettings⟩

theorem ofSource_eq_ofText {text : String} (hpath : source.path? = some path)
    (hread : tree.readText path = .ok text) :
    ofSource tree source read = ofText (some source) text read := by
  unfold ofSource
  rw [hpath]
  dsimp only
  rw [if_pos (pathExists_of_readText hread), hread]

theorem ofSource_of_isReadFrom (hpath : source.path? = some path)
    (h : IsReadFrom read tree path config) : ofSource tree source read = .ok config := by
  obtain ⟨text, settings, hread, hparse, hsettings⟩ := h
  rw [ofSource_eq_ofText hpath hread, ofText, hparse]
  dsimp only
  rw [hsettings]

theorem ofSource_of_isFault (hpath : source.path? = some path)
    (hfault : IsFault read tree source path error) :
    ofSource tree source read = .error error := by
  cases hfault with
  | notFound hmissing => simp [ofSource, hpath, hmissing]
  | unreadable hthere hread => simp [ofSource, hpath, hthere, hread]
  | malformed hread hparse => rw [ofSource_eq_ofText hpath hread, ofText, hparse]
  | invalid hread hparse hsettings =>
      rw [ofSource_eq_ofText hpath hread, ofText, hparse]
      dsimp only
      rw [hsettings]

theorem ofSource_eq_ok_iff (hpath : source.path? = some path) :
    ofSource tree source read = .ok config ↔ IsReadFrom read tree path config := by
  refine ⟨fun hok => ?_, ofSource_of_isReadFrom hpath⟩
  obtain ⟨found, hfound⟩ | ⟨error, hfault⟩ := isReadFrom_or_isFault read tree source path
  · obtain rfl := Except.ok.inj (hok.symm.trans (ofSource_of_isReadFrom hpath hfound))
    exact hfound
  · cases hok.symm.trans (ofSource_of_isFault hpath hfault)

theorem ofSource_eq_error_iff (hpath : source.path? = some path) :
    ofSource tree source read = .error error ↔ IsFault read tree source path error := by
  refine ⟨fun herror => ?_, ofSource_of_isFault hpath⟩
  obtain ⟨found, hfound⟩ | ⟨cause, hfault⟩ := isReadFrom_or_isFault read tree source path
  · cases herror.symm.trans (ofSource_of_isReadFrom hpath hfound)
  · obtain rfl := Except.error.inj (herror.symm.trans (ofSource_of_isFault hpath hfault))
    exact hfault

theorem ofSource_congr (hpath : source.path? = some path)
    (hthere : other.pathExists path = tree.pathExists path)
    (hread : other.readText path = tree.readText path) :
    ofSource other source read = ofSource tree source read := by
  unfold ofSource
  rw [hpath]
  dsimp only
  rw [hthere, hread]

/-! ## What a run uses -/

variable {named : Option Path}

theorem load_eq (read : String → Option Config) (tree : Tree) (named : Option Path)
    (start : Path) :
    load tree named start read =
      (ofSource tree (Config.source tree named start) read).map
        fun config => (config, Config.source tree named start) := by
  unfold load
  dsimp only
  cases ofSource tree (Config.source tree named start) read with
  | ok config => rfl
  | error error => rfl

theorem load_eq_ok_iff : load tree named start read = .ok (config, source) ↔
    source = Config.source tree named start ∧ ofSource tree source read = .ok config := by
  rw [load_eq, FirstError.map_eq_ok_iff]
  constructor
  · intro h
    obtain ⟨found, hfound, heq⟩ := h
    obtain ⟨rfl, rfl⟩ := Prod.mk.inj heq
    exact ⟨rfl, hfound⟩
  · intro h
    obtain ⟨rfl, hfound⟩ := h
    exact ⟨config, hfound, rfl⟩

theorem load_eq_error_iff : load tree named start read = .error error ↔
    ofSource tree (Config.source tree named start) read = .error error := by
  rw [load_eq]
  cases ofSource tree (Config.source tree named start) read <;> simp [Except.map]

theorem source_of_isNearest (hnearest : IsNearest tree start directory) :
    Config.source tree none start = .discovered (directory.join fileName) := by
  have hfound : discover? tree start = some (directory.join fileName) :=
    discover?_eq_some_iff.mpr ⟨directory, hnearest, rfl⟩
  unfold Config.source
  rw [hfound]
  rfl

theorem source_eq_builtIn_iff : Config.source tree none start = .builtIn ↔
    ∀ steps directory, start.above? steps = some directory → ¬ HasFile tree directory := by
  rw [← discover?_eq_none_iff]
  unfold Config.source
  cases discover? tree start <;> simp

theorem settings_default : settings {} = .ok {} :=
  settings_eq_ok_iff.mpr ⟨rfl, rfl, rfl, rfl, by simp [sortedTexts]⟩

theorem ofSource_builtIn (read : String → Option Config) (tree : Tree) :
    ofSource tree .builtIn read = .ok {} := rfl

/-- What has been loaded can be settled. -/
theorem settings_of_load (hload : load tree named start read = .ok (config, source)) :
    ∃ settings, config.settings = .ok settings := by
  obtain ⟨-, hfound⟩ := load_eq_ok_iff.mp hload
  cases hpath : source.path? with
  | none =>
      obtain rfl : source = .builtIn := by
        cases source with
        | named path => cases hpath
        | discovered path => cases hpath
        | builtIn => rfl
      obtain rfl := Except.ok.inj ((ofSource_builtIn read tree).symm.trans hfound)
      exact ⟨_, settings_default⟩
  | some path =>
      obtain ⟨-, settings, -, -, hsettings⟩ := (ofSource_eq_ok_iff hpath).mp hfound
      exact ⟨settings, hsettings⟩

/-- A run uses the file of its source or fails with an error that names it. -/
theorem load_of_source (hsource : Config.source tree named start = source)
    (hpath : source.path? = some file) :
    (∀ config used, load tree named start read = .ok (config, used) ↔
      used = source ∧ IsReadFrom read tree file config) ∧
    (∀ error, load tree named start read = .error error ↔ IsFault read tree source file error) ∧
    ∀ error, load tree named start read = .error error → error.path? = some file := by
  have hfails : ∀ error, load tree named start read = .error error ↔
      IsFault read tree source file error := by
    intro error
    rw [load_eq_error_iff, hsource, ofSource_eq_error_iff hpath]
  refine ⟨?_, hfails, fun error herror => ((hfails error).mp herror).path_eq hpath⟩
  intro config used
  rw [load_eq_ok_iff, hsource]
  refine and_congr_right fun hused => ?_
  rw [hused, ofSource_eq_ok_iff hpath]

/-- Of the tree, a run reads no other file than that of its source. -/
theorem load_congr {named' : Option Path} {start' : Path}
    (hsource : Config.source tree named start = source)
    (hsource' : Config.source other named' start' = source) (hpath : source.path? = some file)
    (hthere : other.pathExists file = tree.pathExists file)
    (hread : other.readText file = tree.readText file) :
    load other named' start' read = load tree named start read := by
  rw [load_eq, load_eq, hsource, hsource', ofSource_congr hpath hthere hread]

/-- A directory whose configuration is fine, and one inside it whose configuration is no text. -/
def nestedConfigs : Tree where
  entries := [
    (["p"], .directory), (["p", "lintfix.toml"], .file (.text "") 0o644),
    (["p", "sub"], .directory), (["p", "sub", "lintfix.toml"], .file (.binary [0xff]) 0o644),
    (["p", "sub", "src"], .directory), (["q"], .directory)]

end LintRepair.Config
