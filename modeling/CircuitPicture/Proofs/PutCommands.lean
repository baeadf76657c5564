import CircuitPicture.Proofs.NumberTexts
import CircuitPicture.Proofs.PictureText
import CircuitPicture.Proofs.RunMessages

/-! # Placement commands

A box name stands in a picture as it is, behind a backslash. As only valid configurations come that
far (`Host.validate_config`), it is a word there, and nothing in the command of a placement ends the
line or the command before its end (`Picture.isLine_putText`). -/

namespace CircuitPicture

theorem Decimal.IsNumber.isLine {text : String} (h : Decimal.IsNumber text) : IsLine text := by
  intro hfeed
  have hmark := h.mem hfeed
  revert hmark
  decide

theorem isLine_of_isBoxName {name : String} (h : isBoxName name = true) : IsLine name := by
  intro hfeed
  have hletter := (isBoxName_iff.1 h).2 '\n' hfeed
  revert hletter
  decide

namespace Picture

theorem putText_eq (names : BoxNames) (p : Placement Float) :
    putText names p = "\\put(" ++ Decimal.coordinateText p.position.x ++ ", " ++
      Decimal.coordinateText p.position.y ++ ")\x7b\\usebox\x7b\\" ++ names.name p.primitive ++
      "\x7d\x7d" := by
  simp [putText, pair, command, braced, ← String.toList_inj]

theorem isLine_putText {names : BoxNames} {p : Placement Float}
    (hname : isBoxName (names.name p.primitive) = true) : IsLine (putText names p) := by
  have hput : IsLine "\\put(" := by decide
  have hx := (Decimal.isNumber_coordinateText p.position.x).isLine
  have hcomma : IsLine ", " := by decide
  have hy := (Decimal.isNumber_coordinateText p.position.y).isLine
  have husebox : IsLine ")\x7b\\usebox\x7b\\" := by decide
  have hend : IsLine "\x7d\x7d" := by decide
  simp only [putText_eq, isLine_append, hput, hx, hcomma, hy, husebox, isLine_of_isBoxName hname,
    hend, and_self]

/-- A placement comes into a buffer as its line, whatever the buffer then does with it. -/
theorem place_buffer (settings : PictureSettings) (names : BoxNames) (p : Placement Float)
    (b : Buffer) :
    ∃ b', (exporter Buffer.writer settings names).place p ⟨.opened, b⟩ =
        (.ok (), ⟨.opened, b'⟩) ∧
      b'.received = b.received ++ (putText names p ++ "\n").toUTF8 := by
  have hemits := emits_place (fun _ => True) Buffer.collects_write trivial settings names p b
  rw [join_putLine] at hemits
  generalize (exporter Buffer.writer settings names).place p ⟨.opened, b⟩ = outcome at hemits
  cases hemits with
  | done effect => exact ⟨_, rfl, effect.2⟩
  | broken possible effect => cases effect.1

end Picture

/-- Whatever a configuration is loaded from and whatever the command line changes, it is valid. So
every placement reaches the buffer as one line, a `\put` command for a box whose name is a word of
ASCII letters. -/
theorem placement_commands {h h' : Host} {platform named vocabulary : Option String}
    {standalone : Bool} {base config : Config}
    (hload : Config.load Host.files platform named h = (.ok base, h'))
    (hoverride : base.override vocabulary standalone = .ok config) :
    config.validate = .ok () ∧
    (∃ c ∈ config.picture.unitLength.toList, isWhiteSpace c = false) ∧
    ∀ (grid : Grid),
      ∀ p ∈ (Layout.placements ⟨grid, config.vocabulary⟩ : List (Placement Float)),
      let x := Decimal.coordinateText p.position.x
      let y := Decimal.coordinateText p.position.y
      let name := config.names.name p.primitive
      let line := "\\put(" ++ x ++ ", " ++ y ++ ")\x7b\\usebox\x7b\\" ++ name ++ "\x7d\x7d"
      Decimal.IsNumber x ∧ Decimal.IsNumber y ∧
      name ≠ "" ∧ (∀ c ∈ name.toList, c.isAlpha = true) ∧
      IsLine line ∧
      ∀ b : Buffer, ∃ b' : Buffer,
        (Picture.exporter Buffer.writer config.picture config.names).place p ⟨.opened, b⟩ =
          (.ok (), ⟨.opened, b'⟩) ∧
        b'.received = b.received ++ (line ++ "\n").toUTF8 := by
  have hconfig : h.config platform named = .ok base :=
    congrArg Prod.fst ((Host.shows_load platform named).symm.trans hload)
  have hvalid : config.validate = .ok () :=
    (Config.validate_override hoverride).trans (Host.validate_config hconfig)
  obtain ⟨hunit, hnames⟩ := Config.validate_eq_ok_iff.1 hvalid
  refine ⟨hvalid, hunit, fun grid p _ => ?_⟩
  intro x y name line
  have hname : isBoxName name = true := hnames p.primitive
  have hline : Picture.putText config.names p = line := Picture.putText_eq config.names p
  obtain ⟨hne, hletters⟩ := isBoxName_iff.1 hname
  refine ⟨Decimal.isNumber_coordinateText _, Decimal.isNumber_coordinateText _, hne, hletters, ?_,
    ?_⟩
  · rw [← hline]
    exact Picture.isLine_putText hname
  · rw [← hline]
    exact Picture.place_buffer config.picture config.names p

/-- A configuration file that names a box, under both overrides. -/
theorem placement_commands_named_box :
    let h : Host := ⟨⟨[(["qcircuit"], .directory), (["qcircuit", "config.toml"],
      .file "[primitives]\nhadamard = \"had\"\n".toUTF8)]⟩, [], .empty⟩
    let base : Config := ⟨.standard, .standard, BoxNames.standard.insert .hadamard "had"⟩
    let config := (base.withVocabulary .minimal).withStandalone true
    Config.load Host.files none none h = (.ok base, h) ∧
      base.override (some "minimal") true = .ok config ∧ config.validate = .ok () ∧
      ∀ (grid : Grid), ∀ p ∈ (Layout.placements ⟨grid, .minimal⟩ : List (Placement Float)),
        ∀ c ∈ (config.names.name p.primitive).toList, c.isAlpha = true := by
  intro h base config
  have htoml : Config.ofToml? "[primitives]\nhadamard = \"had\"\n" = some base := by
    with_unfolding_all rfl
  have hvalid : base.validate = .ok () := by decide
  have htext : h.text Config.localPath = .ok "[primitives]\nhadamard = \"had\"\n" := rfl
  have hread : Config.ofText "[primitives]\nhadamard = \"had\"\n" = .ok base := by
    rw [Config.ofText, htoml]
    simp only [hvalid]
  have hconfig : h.config none none = .ok base := by
    have hpath : h.configPath? none none = some Config.localPath := rfl
    have hpresent : h.isPresent Config.localPath = true := rfl
    rw [Host.config, hpath]
    dsimp only
    rw [if_pos hpresent]
    exact Host.configIn_eq_ok_iff.2 ⟨_, htext, hread⟩
  have hload : Config.load Host.files none none h = (.ok base, h) := by
    rw [← hconfig]
    exact Host.shows_load none none
  have hoverride : base.override (some "minimal") true = .ok config := rfl
  obtain ⟨hvalid', -, hputs⟩ := placement_commands hload hoverride
  exact ⟨hload, hoverride, hvalid', fun grid p hp => (hputs grid p hp).2.2.2.1⟩

end CircuitPicture
