import CircuitPicture.Proofs.ConfigValidity
import CircuitPicture.Proofs.RunOutput

/-! # The source of the configuration

One file settles the configuration, right or wrong (`Host.decided_config`): a run comes to the same
on two hosts with the same such file, input and place of the output (`run_congr`). The command line
changes the vocabulary and the wish for a document (`Config.overridden_of_override`). -/

namespace CircuitPicture

theorem Vocabulary.ofName?_eq_none_iff {name : String} :
    Vocabulary.ofName? name = none ↔ name ≠ "minimal" ∧ name ≠ "extended" := by
  rw [Option.eq_none_iff_forall_ne_some]
  constructor
  · intro h
    exact ⟨fun hname => h minimal (ofName?_eq_some_iff.2 hname.symm),
      fun hname => h extended (ofName?_eq_some_iff.2 hname.symm)⟩
  · rintro ⟨hminimal, hextended⟩ v hv
    have hname := ofName?_eq_some_iff.1 hv
    cases v with
    | minimal => exact hminimal hname.symm
    | extended => exact hextended hname.symm

namespace Config

/-- The configuration `c` is `base` with the vocabulary that is named, if one is, and with a
document if one of them asks for it. -/
structure Overridden (base c : Config) (named : Option String) (document : Bool) : Prop where
  vocabulary : c.vocabulary.name = named.getD base.vocabulary.name
  standalone : c.picture.standalone = (base.picture.standalone || document)
  unitLength : c.picture.unitLength = base.picture.unitLength
  preamble : c.picture.preamble = base.picture.preamble
  names : ∀ p, c.names.name p = base.names.name p

theorem overridden_of_override {base c : Config} {named : Option String} {document : Bool}
    (h : base.override named document = .ok c) : base.Overridden c named document := by
  obtain ⟨_, -, -, hfailed⟩ | ⟨v, hv, hdone⟩ := base.override_cases named document
  · cases hfailed.symm.trans h
  · cases hdone.symm.trans h
    exact ⟨hv, rfl, rfl, rfl, fun _ => rfl⟩

theorem override_eq_error_iff {base : Config} {named : Option String} {document : Bool}
    {e : ConfigError} : base.override named document = .error e ↔
      ∃ name, named = some name ∧ name ≠ "minimal" ∧ name ≠ "extended" ∧
        e = .unsupportedVocabulary name := by
  obtain ⟨name, rfl, hname, hfailed⟩ | ⟨v, hv, hdone⟩ := base.override_cases named document
  · have hne := Vocabulary.ofName?_eq_none_iff.1 hname
    rw [hfailed]
    constructor
    · rintro ⟨⟩
      exact ⟨name, rfl, hne.1, hne.2, rfl⟩
    · rintro ⟨name', hname', -, -, rfl⟩
      cases hname'
      rfl
  · rw [hdone]
    constructor
    · rintro ⟨⟩
    · rintro ⟨name, rfl, hminimal, hextended, -⟩
      have hknown := Vocabulary.ofName?_eq_some_iff.2 hv
      rw [Option.getD_some, Vocabulary.ofName?_eq_none_iff.2 ⟨hminimal, hextended⟩] at hknown
      cases hknown

end Config

namespace Host

/-- What comes of taking the configuration from this file, whether or not it can be read. -/
inductive Settles (h : Host) (path : String) : Except Failure Config → Prop
  | missing (absent : h.isPresent path = false) :
      Settles h path (.error (.config (.missing path)))
  | unreadable {e : IoError} (present : h.isPresent path = true) (text : h.text path = .error e) :
      Settles h path (.error (.io e))
  | malformed {source : String} (present : h.isPresent path = true)
      (text : h.text path = .ok source) (decoded : Config.ofToml? source = none) :
      Settles h path (.error (.config .malformed))
  | invalid {source : String} {c : Config} {fault : ConfigFault}
      (present : h.isPresent path = true) (text : h.text path = .ok source)
      (decoded : Config.ofToml? source = some c) (validated : c.validate = .error fault) :
      Settles h path (.error (.config (.invalid fault)))
  | valid {source : String} {c : Config} (present : h.isPresent path = true)
      (text : h.text path = .ok source) (decoded : Config.ofToml? source = some c)
      (validated : c.validate = .ok ()) : Settles h path (.ok c)

variable {h h' : Host} {path : String} {platform : Option String}

theorem settles_configIn (hpath : h.isPresent path = true) : h.Settles path (h.configIn path) := by
  rw [configIn]
  cases htext : h.text path with
  | error e => exact .unreadable hpath htext
  | ok source =>
    change h.Settles path ((Config.ofText source).mapError .config)
    obtain ⟨htoml, hread⟩ | ⟨c, fault, htoml, hfault, hread⟩ | ⟨c, htoml, hvalid, hread⟩ :=
      Config.ofText_cases source
    · rw [hread]
      exact .malformed hpath htext htoml
    · rw [hread]
      exact .invalid hpath htext htoml hfault
    · rw [hread]
      exact .valid hpath htext htoml hvalid

/-! ## The file that decides -/

/-- The outcome is that of the file that is named, else of the one in the working directory if it is
there, else of the one of the platform if it is there, else the standard configuration. -/
structure Decided (h : Host) (platform named : Option String) (outcome : Except Failure Config) :
    Prop where
  ofNamed : ∀ path, named = some path → h.Settles path outcome
  ofLocal : named = none → h.isPresent Config.localPath = true →
    h.Settles Config.localPath outcome
  ofPlatform : named = none → h.isPresent Config.localPath = false →
    ∀ path, platform = some path → h.isPresent path = true → h.Settles path outcome
  standard : named = none → h.isPresent Config.localPath = false →
    (∀ path, platform = some path → h.isPresent path = false) → outcome = .ok .standard

theorem settles_of_configPath? {named : Option String}
    (hfile : h.configPath? platform named = some path) (hpath : h.isPresent path = true) :
    h.Settles path (h.config platform named) := by
  rw [config, hfile]
  dsimp only
  rw [if_pos hpath]
  exact settles_configIn hpath

theorem decided_config (h : Host) (platform named : Option String) :
    h.Decided platform named (h.config platform named) where
  ofNamed := by
    rintro path rfl
    cases hpath : h.isPresent path with
    | true => exact settles_of_configPath? rfl hpath
    | false =>
      have hmissing : h.config platform (some path) = .error (.config (.missing path)) :=
        if_neg (by simp [hpath])
      rw [hmissing]
      exact .missing hpath
  ofLocal := by
    rintro rfl hlocal
    exact settles_of_configPath? (List.find?_cons_of_pos hlocal) hlocal
  ofPlatform := by
    rintro rfl hlocal path rfl hpath
    exact settles_of_configPath? (by simp [configPath?, hlocal, hpath]) hpath
  standard := by
    rintro rfl hlocal hplatform
    have hfile : h.configPath? platform none = none := by
      cases platform with
      | none => simp [configPath?, hlocal]
      | some path => simp [configPath?, hlocal, hplatform path rfl]
    rw [config, hfile]

/-! ## Hosts that agree -/

/-- A path leads to the same text in both hosts, or to none for the same reason. -/
structure SameFile (h h' : Host) (path : String) : Prop where
  isPresent : h.isPresent path = h'.isPresent path
  text : h.text path = h'.text path

/-- A path leads to the same entry in both hosts, and can be written to at the same place. -/
structure SamePlace (h h' : Host) (path : String) : Prop where
  find : h.tree.find h.directory path = h'.tree.find h'.directory path
  findForWriting :
    h.tree.findForWriting h.directory path = h'.tree.findForWriting h'.directory path

/-- The same file settles the configuration in the same way. -/
theorem Settles.unique {x y : Except Failure Config} (hx : h.Settles path x)
    (hsame : h.SameFile h' path) (hy : h'.Settles path y) : x = y := by
  obtain ⟨hpresent, htext⟩ := hsame
  cases hx <;> cases hy <;> simp_all

theorem read_congr (hsame : h.SamePlace h' path) : h.read path = h'.read path := by
  rw [read, read, hsame.find]

theorem lookup?_congr (hsame : h.SamePlace h' path) {place : Place}
    (hplace : h.tree.findForWriting h.directory path = .ok place) :
    h.tree.lookup? place = h'.tree.lookup? place := by
  have hfind := hsame.find
  rw [FileTree.find_of_findForWriting hplace,
    FileTree.find_of_findForWriting (hsame.findForWriting ▸ hplace)] at hfind
  cases hentry : h.tree.lookup? place <;> cases hentry' : h'.tree.lookup? place <;>
    simp_all

/-- The hosts agree on all that the arguments name except for a configuration, and have printed the
same. -/
structure SameWork (h h' : Host) (a : Arguments) : Prop where
  input : h.text a.input = h'.text a.input
  output : ∀ path, a.output = some path → h.SamePlace h' path
  printed : h.printed = h'.printed

end Host

/-- Two runs for the same arguments cannot be told apart: they end in the same way, and have left
the same text on standard output and under the path of the output. -/
structure SameOutcome (a : Arguments) (r r' : Except Failure Unit × Host) : Prop where
  result : r.1 = r'.1
  printed : r.2.printed = r'.2.printed
  output : ∀ path, a.output = some path → r.2.read path = r'.2.read path

section Agreement

open Host

variable {h h' : Host} {a : Arguments} (hsame : h.SameWork h' a)
include hsame

theorem SameOutcome.of_unchanged (result : Except Failure Unit) :
    SameOutcome a (result, h) (result, h') where
  result := rfl
  printed := hsame.printed
  output path hpath := read_congr (hsame.output path hpath)

theorem deliver_device_congr (config : Config) (grid : Grid) {path : String} {place : Place}
    {d : Device} (hpath : a.output = some path)
    (hplace : h.tree.findForWriting h.directory path = .ok place)
    (hdevice : h.tree.lookup? place = some (.device d)) :
    SameOutcome a (deliver files config grid (some path) h)
      (deliver files config grid (some path) h') := by
  have hpaths := hsame.output path hpath
  have hplace' := hpaths.findForWriting ▸ hplace
  have hdevice' := lookup?_congr hpaths hplace ▸ hdevice
  rw [deliver_of_create h config grid (create_eq_of_device h hplace hdevice),
    deliver_of_create h' config grid (create_eq_of_device h' hplace' hdevice')]
  cases d with
  | null => exact .of_unchanged hsame _
  | full => exact .of_unchanged hsame _
  | output =>
    refine ⟨rfl, ?_, fun other hother => ?_⟩
    · exact congrArg (· ++ (Picture.text config grid).toUTF8) hsame.printed
    · have hread : h.read other = h'.read other := read_congr (hsame.output other hother)
      exact hread

theorem deliver_congr (config : Config) (grid : Grid) :
    SameOutcome a (deliver files config grid a.output h)
      (deliver files config grid a.output h') := by
  cases hpath : a.output with
  | none =>
    rw [deliver_none, deliver_none, hsame.printed]
    exact ⟨rfl, rfl, fun _ hother => nomatch hpath.symm.trans hother⟩
  | some path =>
    have hpaths := hsame.output path hpath
    cases hplace : h.tree.findForWriting h.directory path with
    | error e =>
      have hplace' := hpaths.findForWriting ▸ hplace
      rw [shows_deliver config grid (create_of_no_place hplace),
        shows_deliver config grid (create_of_no_place hplace')]
      exact .of_unchanged hsame _
    | ok place =>
      have hplace' := hpaths.findForWriting ▸ hplace
      by_cases hdevice : ∃ d, h.tree.lookup? place = some (.device d)
      · obtain ⟨d, hdevice⟩ := hdevice
        exact deliver_device_congr hsame config grid hpath hplace hdevice
      · have hfile : ∀ d, h.tree.lookup? place ≠ some (.device d) := fun d hd => hdevice ⟨d, hd⟩
        have hfile' : ∀ d, h'.tree.lookup? place ≠ some (.device d) := by
          rwa [← lookup?_congr hpaths hplace]
        rw [deliver_file h config grid hplace hfile, deliver_file h' config grid hplace' hfile']
        refine ⟨rfl, hsame.printed, fun other hother => ?_⟩
        cases hpath.symm.trans hother
        rw [read_put h _ hplace, read_put h' _ hplace']

theorem run_congr {platform platform' : Option String}
    (hconfig : h.config platform a.config = h'.config platform' a.config) :
    SameOutcome a (run files platform a h) (run files platform' a h') := by
  have hprepared : h.prepared platform a = h'.prepared platform' a := by
    rw [prepared, prepared, effectiveConfig, effectiveConfig, grid, grid, hconfig, hsame.input]
  cases hparts : h.prepared platform a with
  | error e =>
    rw [run_of_unprepared hparts, run_of_unprepared (hprepared ▸ hparts)]
    exact .of_unchanged hsame _
  | ok parts =>
    rw [run_of_prepared hparts, run_of_prepared (hprepared ▸ hparts)]
    exact deliver_congr hsame parts.1 parts.2

end Agreement

/-- A run whose configuration cannot be put together fails for that reason. -/
theorem run_of_config_error {h : Host} {platform : Option String} {a : Arguments} {e : Failure}
    (hconfig : h.effectiveConfig platform a = .error e) :
    run Host.files platform a h = (.error e, h) := by
  refine run_of_unprepared ?_
  rw [Host.prepared, hconfig]
  rfl

/-- A run that succeeds makes its picture under the configuration that has been put together. -/
theorem exists_deliver_of_run {h after : Host} {platform : Option String} {a : Arguments}
    {c : Config} (hconfig : h.effectiveConfig platform a = .ok c)
    (hrun : run Host.files platform a h = (.ok (), after)) :
    ∃ source grid, h.text a.input = .ok source ∧ Grid.parse source = .ok grid ∧
      deliver Host.files c grid a.output h = (.ok (), after) := by
  cases hgrid : h.grid a.input with
  | error e =>
    have hprepared : h.prepared platform a = .error e := by
      rw [Host.prepared, hconfig, hgrid]
      rfl
    rw [run_of_unprepared hprepared] at hrun
    cases hrun
  | ok grid =>
    obtain ⟨source, hsource, hparse⟩ := grid_eq_ok_iff.1 hgrid
    rw [run_eq_deliver hconfig hgrid] at hrun
    exact ⟨source, grid, hsource, hparse, hrun⟩

/-- The configuration of a run comes from one file, which decides alone and is never passed over
because something is wrong with it. The command line then changes the vocabulary and the wish for a
document and nothing else. -/
theorem run_configured_once (h h' : Host) (platform platform' : Option String) (a : Arguments) :
    (h.SameWork h' a →
      let sameRuns := SameOutcome a (run Host.files platform a h) (run Host.files platform' a h')
      (∀ path, a.config = some path → h.SameFile h' path → sameRuns) ∧
      (a.config = none → h.isPresent Config.localPath = true →
        h.SameFile h' Config.localPath → sameRuns) ∧
      (a.config = none → h.isPresent Config.localPath = false →
        h'.isPresent Config.localPath = false → platform = platform' →
        (∀ path, platform = some path → h.SameFile h' path) → sameRuns)) ∧
    (∃ loaded, Config.load Host.files platform a.config h = (loaded, h) ∧
      h.Decided platform a.config loaded ∧
      (∀ e, loaded = .error e → run Host.files platform a h = (.error e, h)) ∧
      ∀ base, loaded = .ok base →
        (∀ e, base.override a.vocabulary a.standalone = .error e →
          run Host.files platform a h = (.error (.config e), h)) ∧
        ∀ c, base.override a.vocabulary a.standalone = .ok c →
          ∀ after, run Host.files platform a h = (.ok (), after) →
            ∃ source grid, h.text a.input = .ok source ∧ Grid.parse source = .ok grid ∧
              deliver Host.files c grid a.output h = (.ok (), after)) ∧
    ∀ base : Config,
      ((∃ e, base.override a.vocabulary a.standalone = .error e) ↔
        ∃ name, a.vocabulary = some name ∧ name ≠ "minimal" ∧ name ≠ "extended") ∧
      ∀ c, base.override a.vocabulary a.standalone = .ok c →
        base.Overridden c a.vocabulary a.standalone := by
  have hdecided := h.decided_config platform a.config
  have hdecided' := h'.decided_config platform' a.config
  refine ⟨fun hsame => ?_, ⟨h.config platform a.config, Host.shows_load platform a.config,
    hdecided, fun e hloaded => ?_, fun base hloaded => ⟨fun e hfailed => ?_, fun c hdone => ?_⟩⟩,
    fun base => ⟨?_, fun c hdone => Config.overridden_of_override hdone⟩⟩
  · intro sameRuns
    refine ⟨fun path hnamed hfile => ?_, fun hnone hlocal hfile => ?_,
      fun hnone hlocal hlocal' hplatform hfile => ?_⟩
    · exact run_congr hsame
        ((hdecided.ofNamed path hnamed).unique hfile (hdecided'.ofNamed path hnamed))
    · exact run_congr hsame
        ((hdecided.ofLocal hnone hlocal).unique hfile
          (hdecided'.ofLocal hnone (hfile.isPresent ▸ hlocal)))
    · subst hplatform
      by_cases hpresent : ∃ path, platform = some path ∧ h.isPresent path = true
      · obtain ⟨path, hpath, hpresent⟩ := hpresent
        have hpresent' := (hfile path hpath).isPresent ▸ hpresent
        exact run_congr hsame
          ((hdecided.ofPlatform hnone hlocal path hpath hpresent).unique (hfile path hpath)
            (hdecided'.ofPlatform hnone hlocal' path hpath hpresent'))
      · have habsent (path : String) (hpath : platform = some path) : h.isPresent path = false :=
          Bool.eq_false_iff.2 fun hpresent' => hpresent ⟨path, hpath, hpresent'⟩
        have habsent' (path : String) (hpath : platform = some path) : h'.isPresent path = false :=
          (hfile path hpath).isPresent ▸ habsent path hpath
        exact run_congr hsame
          ((hdecided.standard hnone hlocal habsent).trans
            (hdecided'.standard hnone hlocal' habsent').symm)
  · refine run_of_config_error ?_
    rw [Host.effectiveConfig, hloaded]
    rfl
  · refine run_of_config_error ?_
    rw [Host.effectiveConfig, hloaded]
    change (base.override _ _).mapError _ = _
    rw [hfailed]
    rfl
  · refine fun after hrun => exists_deliver_of_run ?_ hrun
    rw [Host.effectiveConfig, hloaded]
    change (base.override _ _).mapError _ = _
    rw [hdone]
    rfl
  · constructor
    · rintro ⟨e, hfailed⟩
      obtain ⟨name, hname, hminimal, hextended, -⟩ := Config.override_eq_error_iff.1 hfailed
      exact ⟨name, hname, hminimal, hextended⟩
    · rintro ⟨name, hname, hminimal, hextended⟩
      exact ⟨_, Config.override_eq_error_iff.2 ⟨name, hname, hminimal, hextended, rfl⟩⟩

/-- A named file decides, whether or not there is another one in the working directory that is no
TOML. -/
theorem run_configured_once_beside_bad_file :
    let named := (["c.toml"], FileEntry.file "[vocabulary]\nkind = \"minimal\"\n".toUTF8)
    let input := (["in.qc"], FileEntry.file "H".toUTF8)
    let h : Host := ⟨⟨[named, input]⟩, [], .empty⟩
    let h' : Host := ⟨⟨[named, input, (["qcircuit"], .directory),
      (["qcircuit", "config.toml"], .file "[".toUTF8)]⟩, [], .empty⟩
    let a : Arguments := ⟨"in.qc", none, some "c.toml", none, false, "warn"⟩
    h.isPresent Config.localPath = false ∧ h'.isPresent Config.localPath = true ∧
      SameOutcome a (run Host.files none a h) (run Host.files (some "/p.toml") a h') := by
  intro named input h h' a
  have hinput : h.text "in.qc" = .ok "H" := rfl
  have hinput' : h'.text "in.qc" = .ok "H" := rfl
  have htext : h.text "c.toml" = .ok "[vocabulary]\nkind = \"minimal\"\n" := rfl
  have htext' : h'.text "c.toml" = .ok "[vocabulary]\nkind = \"minimal\"\n" := rfl
  have hsame : h.SameWork h' a := ⟨hinput.trans hinput'.symm, nofun, rfl⟩
  have hfile : h.SameFile h' "c.toml" := ⟨rfl, htext.trans htext'.symm⟩
  have hruns := (run_configured_once h h' none (some "/p.toml") a).1 hsame
  exact ⟨rfl, rfl, hruns.1 "c.toml" rfl hfile⟩

end CircuitPicture
