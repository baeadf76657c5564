import CircuitPicture.Proofs.BufferedWriting
import CircuitPicture.Proofs.FilePlaces
import CircuitPicture.Proofs.GridReading
import CircuitPicture.Proofs.RunStages

/-! # Outputs of a run

Appending piece by piece is appending the whole (`append_append`), so a picture reaches its target
in one piece however it was buffered. What a run leaves behind is then the same text, be it in a
file or on standard output. -/

namespace CircuitPicture

namespace Host

variable {h h' : Host} {out : Target} {place : Place}

/-! ## Appending -/

theorem append_file {content : ByteArray} (hcontent : h.tree.lookup? place = some (.file content))
    (bytes : ByteArray) :
    h.append (.file place) bytes =
      (.ok (), { h with tree := h.tree.put place (.file (content ++ bytes)) }) := by
  rw [append]
  simp only [hcontent]

theorem append_of_not_file (hplace : ∀ content, h.tree.lookup? place ≠ some (.file content))
    (bytes : ByteArray) : h.append (.file place) bytes = (.error .notFound, h) := by
  rw [append]
  split
  · rename_i content hcontent
    exact absurd hcontent (hplace content)
  · rfl

theorem append_append {a : ByteArray} (ha : h.append out a = (.ok (), h')) (b : ByteArray) :
    h'.append out b = h.append out (a ++ b) := by
  cases out with
  | device d =>
    cases d with
    | null => cases ha; rfl
    | full => cases ha
    | output =>
      cases ha
      simp only [append, ByteArray.append_assoc]
  | file place =>
    by_cases hfile : ∃ content, h.tree.lookup? place = some (.file content)
    · obtain ⟨content, hcontent⟩ := hfile
      have hplace : place ≠ [] := by
        rintro rfl
        cases hcontent
      rw [append_file hcontent] at ha
      cases ha
      rw [append_file (FileTree.lookup?_put_self _ _ hplace), append_file hcontent,
        FileTree.put_put, ByteArray.append_assoc]
    · rw [append_of_not_file fun content hcontent => hfile ⟨content, hcontent⟩] at ha
      cases ha

theorem append_error {a : ByteArray} {e : IoError} (ha : h.append out a = (.error e, h'))
    (b : ByteArray) : h.append out (a ++ b) = (.error e, h') := by
  cases out with
  | device d =>
    cases d with
    | null => cases ha
    | full => cases ha; rfl
    | output => cases ha
  | file place =>
    by_cases hfile : ∃ content, h.tree.lookup? place = some (.file content)
    · obtain ⟨content, hcontent⟩ := hfile
      rw [append_file hcontent] at ha
      cases ha
    · have hno : ∀ content, h.tree.lookup? place ≠ some (.file content) :=
        fun content hcontent => hfile ⟨content, hcontent⟩
      rw [append_of_not_file hno] at ha ⊢
      exact ha

/-- Pieces that are appended one after the other are appended as a whole. -/
theorem forM_append (piece : ByteArray) (pieces : List ByteArray) :
    ((piece :: pieces).forM fun bytes => ExceptT.mk (files.append out bytes)) h =
      h.append out (joined (piece :: pieces)) := by
  induction pieces generalizing h piece with
  | nil =>
    rw [joined_cons, joined_nil, ByteArray.append_empty]
    cases hpiece : h.append out piece with
    | mk result h' =>
      cases result with
      | error e => exact bind_of_error hpiece
      | ok _ => exact bind_of_ok hpiece
  | cons next pieces ih =>
    cases hpiece : h.append out piece with
    | mk result h' =>
      cases result with
      | error e =>
        rw [joined_cons, append_error hpiece]
        exact bind_of_error hpiece
      | ok _ =>
        rw [joined_cons, ← append_append hpiece, ← ih]
        exact bind_of_ok hpiece

/-! ## Passing on what was buffered -/

variable {buffer : Buffer} (h : Host) (out : Target)

theorem passOn_nothing (hpassed : buffer.passed = #[]) :
    passOn files out buffer h = (.ok buffer, h) := by
  obtain ⟨kind, capacity, pending, passed⟩ := buffer
  cases hpassed
  rfl

theorem passOn_eq (hsent : buffer.sent ≠ .empty) :
    passOn files out buffer h =
      ((h.append out buffer.sent).1.map fun _ => { buffer with passed := #[] },
        (h.append out buffer.sent).2) := by
  cases hpassed : buffer.passed.toList with
  | nil => exact absurd (congrArg joined hpassed) hsent
  | cons piece pieces =>
    have happend : (buffer.passed.toList.forM fun bytes => ExceptT.mk (files.append out bytes)) h =
        h.append out buffer.sent := by
      rw [hpassed, forM_append, Buffer.sent, hpassed]
    cases hresult : h.append out buffer.sent with
    | mk result h' =>
      rw [hresult] at happend
      cases result with
      | error e => exact bind_of_error happend
      | ok _ => exact bind_of_ok happend

/-- A picture that goes through an empty buffer of any kind arrives as if it had been appended as a
whole. -/
theorem transmit_eq (config : Config) (grid : Grid) (kind : Buffering) (capacity : Nat) :
    transmit files config grid out (.empty kind capacity) h =
      ((h.append out (Picture.text config grid).toUTF8).1.mapError fun e => .exporting (.io e),
        (h.append out (Picture.text config grid).toUTF8).2) := by
  obtain ⟨buffer, hwrite, hpending, hsent⟩ :=
    Picture.writeTo_buffer config grid (.empty kind capacity)
  have htext : buffer.sent = (Picture.text config grid).toUTF8 :=
    hsent.trans ByteArray.empty_append
  have hne : buffer.sent ≠ .empty := by
    rw [htext]
    exact fun h => Picture.text_ne_empty config grid (String.toByteArray_eq_empty_iff.1 h)
  have hpass := passOn_eq h out hne
  rw [← htext, transmit, hwrite]
  dsimp only
  cases hresult : h.append out buffer.sent with
  | mk result h' =>
    rw [hresult] at hpass
    cases result with
    | error e => exact bind_of_error (adapt_eq _ hpass)
    | ok _ =>
      rw [bind_of_ok (adapt_eq _ hpass)]
      have hdrained : (Buffer.drain { buffer with passed := #[] }).passed = #[] := by
        rw [Buffer.drain, hpending]
        rfl
      have hrest : h'.Shows (passOn files out (Buffer.drain { buffer with passed := #[] }))
          (.ok _) := passOn_nothing h' out hdrained
      exact (Shows.ofExcept (.ok ())).bind fun _ => (hrest.adapt Failure.io).bind fun _ => rfl

/-! ## Delivering -/

theorem deliver_none (config : Config) (grid : Grid) :
    deliver files config grid none h =
      (.ok (), { h with printed := h.printed ++ (Picture.text config grid).toUTF8 }) :=
  transmit_eq h (.device .output) config grid .line 1024

theorem create_eq_of_file {path : String}
    (hplace : h.tree.findForWriting h.directory path = .ok place)
    (hfile : ∀ d, h.tree.lookup? place ≠ some (.device d)) :
    h.create path = (.ok (.file place), { h with tree := h.tree.put place (.file .empty) }) := by
  rw [create, hplace]
  dsimp only
  split
  · rename_i d hdevice
    exact absurd hdevice (hfile d)
  · rfl

theorem create_eq_of_device {path : String} {d : Device}
    (hplace : h.tree.findForWriting h.directory path = .ok place)
    (hdevice : h.tree.lookup? place = some (.device d)) :
    h.create path = (.ok (.device d), h) := by
  rw [create, hplace]
  simp only [hdevice]

theorem deliver_of_create (config : Config) (grid : Grid) {path : String} {target : Target}
    {opened : Host} (hcreate : h.create path = (.ok target, opened)) :
    deliver files config grid (some path) h =
      ((opened.append target (Picture.text config grid).toUTF8).1.mapError fun e =>
          .exporting (.io e),
        (opened.append target (Picture.text config grid).toUTF8).2) := by
  have hopen : (files.create path : ExceptT IoError (StateM Host) Target) h =
      (.ok target, opened) := hcreate
  have htransmit := transmit_eq opened target config grid .block 8192
  exact (bind_of_ok (adapt_eq Failure.io hopen)).trans htransmit

theorem deliver_file (config : Config) (grid : Grid) {path : String}
    (hplace : h.tree.findForWriting h.directory path = .ok place)
    (hfile : ∀ d, h.tree.lookup? place ≠ some (.device d)) :
    deliver files config grid (some path) h = (.ok (), { h with
      tree := h.tree.put place (.file (Picture.text config grid).toUTF8) }) := by
  have hempty : (h.tree.put place (.file .empty)).lookup? place = some (.file .empty) :=
    FileTree.lookup?_put_self _ _ (FileTree.ne_root_of_findForWriting hplace)
  rw [deliver_of_create h config grid (create_eq_of_file h hplace hfile), append_file hempty,
    FileTree.put_put, ByteArray.empty_append]
  rfl

end Host

/-! ## Runs that succeed -/

theorem prepared_eq_ok_iff {h : Host} {platform : Option String} {a : Arguments}
    {parts : Config × Grid} :
    h.prepared platform a = .ok parts ↔
      h.effectiveConfig platform a = .ok parts.1 ∧ h.grid a.input = .ok parts.2 := by
  rw [Host.prepared]
  cases h.effectiveConfig platform a with
  | error e => simp [bind, Except.bind]
  | ok config =>
    cases h.grid a.input with
    | error e => simp [bind, Except.bind]
    | ok grid => simp [bind, Except.bind, pure, Except.pure, Prod.ext_iff]

theorem grid_eq_ok_iff {h : Host} {path : String} {grid : Grid} :
    h.grid path = .ok grid ↔ ∃ source, h.text path = .ok source ∧ Grid.parse source = .ok grid :=
  Host.mapError_bind_eq_ok_iff

theorem run_eq_deliver {h : Host} {platform : Option String} {a : Arguments} {config : Config}
    {grid : Grid} (hconfig : h.effectiveConfig platform a = .ok config)
    (hgrid : h.grid a.input = .ok grid) :
    run Host.files platform a h = deliver Host.files config grid a.output h := by
  have hparts : h.prepared platform a = .ok (config, grid) := prepared_eq_ok_iff.2 ⟨hconfig, hgrid⟩
  have hrun := run_of_prepared hparts
  exact hrun

/-- The host is as before, but for the content of one file. -/
structure Host.Stored (before after : Host) (place : Place) (content : ByteArray) : Prop where
  content : after.tree.lookup? place = some (.file content)
  others : ∀ other, other ≠ place → after.tree.lookup? other = before.tree.lookup? other
  printed : after.printed = before.printed
  directory : after.directory = before.directory

theorem Host.stored_put (h : Host) {place : Place} (hplace : place ≠ []) (content : ByteArray) :
    h.Stored { h with tree := h.tree.put place (.file content) } place content where
  content := FileTree.lookup?_put_self h.tree (.file content) hplace
  others _ hother := FileTree.lookup?_put_ne h.tree (.file content) hplace hother
  printed := rfl
  directory := rfl

theorem Host.read_put (h : Host) {place : Place} {path : String} (content : ByteArray)
    (hplace : h.tree.findForWriting h.directory path = .ok place) :
    Host.read { h with tree := h.tree.put place (.file content) } path = .ok content := by
  have hfind := FileTree.find_put content hplace
  rw [Host.read]
  simp only [hfind]

theorem exists_place_of_deliver {h h' : Host} {config : Config} {grid : Grid} {path : String}
    (hdeliver : deliver Host.files config grid (some path) h = (.ok (), h')) :
    ∃ place, h.tree.findForWriting h.directory path = .ok place := by
  cases hplace : h.tree.findForWriting h.directory path with
  | ok place => exact ⟨place, rfl⟩
  | error e =>
    have hfailed := Host.shows_deliver config grid (Host.create_of_no_place hplace)
    rw [hfailed] at hdeliver
    cases hdeliver

theorem exists_place_of_no_fault {h : Host} {platform : Option String} {a : Arguments}
    {path : String} (hpath : a.output = some path)
    (hfault : Stage.output.fault? h platform a = none) :
    ∃ place, h.tree.findForWriting h.directory path = .ok place := by
  cases hplace : h.tree.findForWriting h.directory path with
  | ok place => exact ⟨place, rfl⟩
  | error e =>
    rw [Stage.fault?, hpath, Option.bind_some, Host.create_of_no_place hplace] at hfault
    cases hfault

/-- Nothing but a full device stops a run in which no stage has a fault. -/
theorem run_of_no_fault (h : Host) (platform : Option String) (a : Arguments)
    (hfault : Stage.firstFault? h platform a = none) :
    (∃ h', run Host.files platform a h = (.ok (), h')) ∨
      run Host.files platform a h = (.error (.exporting (.io .noSpace)), h) := by
  rw [Stage.firstFault?_eq, Option.or_eq_none_iff] at hfault
  obtain ⟨hparts, hopens⟩ := hfault
  cases hprepared : h.prepared platform a with
  | error e =>
    rw [hprepared] at hparts
    cases hparts
  | ok parts =>
    rw [run_of_prepared hprepared]
    cases hpath : a.output with
    | none => exact .inl ⟨_, Host.deliver_none h parts.1 parts.2⟩
    | some path =>
      obtain ⟨place, hplace⟩ := exists_place_of_no_fault hpath hopens
      by_cases hdevice : ∃ d, h.tree.lookup? place = some (.device d)
      · obtain ⟨d, hdevice⟩ := hdevice
        have hcreate := Host.create_eq_of_device h hplace hdevice
        rw [Host.deliver_of_create h parts.1 parts.2 hcreate]
        cases d with
        | null => exact .inl ⟨_, rfl⟩
        | full => exact .inr rfl
        | output => exact .inl ⟨_, rfl⟩
      · have hfile : ∀ d, h.tree.lookup? place ≠ some (.device d) :=
          fun d hd => hdevice ⟨d, hd⟩
        exact .inl ⟨_, Host.deliver_file h parts.1 parts.2 hplace hfile⟩

theorem exists_grid_hadamard : ∃ grid, Grid.parse "H" = .ok grid := by
  rw [Grid.parse, Line.ofText_eq]
  exact ⟨_, rfl⟩

/-- Whatever the output of a run that succeeds, it is the picture of the input and the configuration
as they were before: in one file, which may have been one of them, and nothing else is different; or
on standard output, and no file is different. A path to a device stores nothing. -/
theorem run_outputs_agree (h h' : Host) (platform : Option String) (a : Arguments)
    (hrun : run Host.files platform a h = (.ok (), h')) :
    ∃ source config grid picture,
      h.text a.input = .ok source ∧ Grid.parse source = .ok grid ∧
      h.effectiveConfig platform a = .ok config ∧ Picture.render config grid = .ok picture ∧
      let onOutput : Host := { h with printed := h.printed ++ picture.toUTF8 }
      run Host.files platform { a with output := none } h = (.ok (), onOutput) ∧
      (a.output = none → h' = onOutput) ∧
      ∀ path, a.output = some path → ∃ place,
        h.tree.findForWriting h.directory path = .ok place ∧
        ((∀ d, h.tree.lookup? place ≠ some (.device d)) →
          h.Stored h' place picture.toUTF8 ∧ h'.read path = .ok picture.toUTF8) ∧
        (∀ d, h.tree.lookup? place = some (.device d) →
          h' = if d = .output then onOutput else h) := by
  cases hprepared : h.prepared platform a with
  | error e =>
    rw [run_of_unprepared hprepared] at hrun
    cases hrun
  | ok parts =>
    obtain ⟨config, grid⟩ := parts
    obtain ⟨hconfig, hgrid⟩ := prepared_eq_ok_iff.1 hprepared
    obtain ⟨source, hsource, hparse⟩ := grid_eq_ok_iff.1 hgrid
    have hother : h.effectiveConfig platform { a with output := none } = .ok config := hconfig
    rw [run_eq_deliver hconfig hgrid] at hrun
    refine ⟨source, config, grid, Picture.text config grid, hsource, hparse, hconfig,
      Picture.render_eq config grid, ?_, fun hnone => ?_, fun path hpath => ?_⟩
    · exact (run_eq_deliver hother hgrid).trans (Host.deliver_none h config grid)
    · rw [hnone, Host.deliver_none] at hrun
      cases hrun
      rfl
    · rw [hpath] at hrun
      obtain ⟨place, hplace⟩ := exists_place_of_deliver hrun
      refine ⟨place, hplace, fun hfile => ?_, fun d hdevice => ?_⟩
      · rw [Host.deliver_file h config grid hplace hfile] at hrun
        cases hrun
        exact ⟨h.stored_put (FileTree.ne_root_of_findForWriting hplace) _, h.read_put _ hplace⟩
      · have hcreate := Host.create_eq_of_device h hplace hdevice
        rw [Host.deliver_of_create h config grid hcreate] at hrun
        cases d with
        | null => cases hrun; rfl
        | full => cases hrun
        | output => cases hrun; rfl

/-- A run that writes over its own input. -/
theorem run_outputs_agree_overwrite :
    let h : Host := ⟨⟨[(["in.qc"], .file "H".toUTF8)]⟩, [], .empty⟩
    let a : Arguments := ⟨"in.qc", some "in.qc", none, none, false, "warn"⟩
    ∃ h' picture, run Host.files none a h = (.ok (), h') ∧ h'.read "in.qc" = .ok picture ∧
      run Host.files none { a with output := none } h =
        (.ok (), { h with printed := picture }) := by
  intro h a
  obtain ⟨grid, hparse⟩ := exists_grid_hadamard
  have hconfig : h.effectiveConfig none a = .ok .standard := rfl
  have htext : h.text "in.qc" = .ok "H" := rfl
  have hgrid : h.grid a.input = .ok grid := grid_eq_ok_iff.2 ⟨"H", htext, hparse⟩
  have hplace : h.tree.findForWriting h.directory "in.qc" = .ok ["in.qc"] := rfl
  have hfile : ∀ d, h.tree.lookup? ["in.qc"] ≠ some (.device d) := nofun
  have hrun := (run_eq_deliver hconfig hgrid).trans
    (Host.deliver_file h .standard grid hplace hfile)
  obtain ⟨-, -, -, picture, -, -, -, -, hprinted, -, hstored⟩ := run_outputs_agree h _ none a hrun
  obtain ⟨place, hplace', hread, -⟩ := hstored "in.qc" rfl
  cases hplace.symm.trans hplace'
  have hempty : h.printed ++ picture.toUTF8 = picture.toUTF8 := ByteArray.empty_append
  rw [hempty] at hprinted
  exact ⟨_, picture.toUTF8, hrun, (hread hfile).2, hprinted⟩

/-- A device is no file: a run whose output is the null device succeeds and stores nothing. -/
theorem run_to_null_device :
    let h : Host := ⟨⟨[(["in.qc"], .file "H".toUTF8), (["dev"], .directory),
      (["dev", "null"], .device .null)]⟩, [], .empty⟩
    let a : Arguments := ⟨"in.qc", some "/dev/null", none, none, false, "warn"⟩
    ∃ grid picture, h.grid a.input = .ok grid ∧ h.effectiveConfig none a = .ok .standard ∧
      Picture.render .standard grid = .ok picture ∧ run Host.files none a h = (.ok (), h) ∧
      h.read "/dev/null" ≠ .ok picture.toUTF8 := by
  intro h a
  obtain ⟨grid, hparse⟩ := exists_grid_hadamard
  have hconfig : h.effectiveConfig none a = .ok .standard := rfl
  have htext : h.text "in.qc" = .ok "H" := rfl
  have hgrid : h.grid a.input = .ok grid := grid_eq_ok_iff.2 ⟨"H", htext, hparse⟩
  have hplace : h.tree.findForWriting h.directory "/dev/null" = .ok ["dev", "null"] := rfl
  have hcreate := Host.create_eq_of_device h hplace rfl
  have hrun := (run_eq_deliver hconfig hgrid).trans
    (Host.deliver_of_create h .standard grid hcreate)
  have hread : h.read "/dev/null" = .ok .empty := rfl
  refine ⟨grid, _, hgrid, hconfig, Picture.render_eq .standard grid, hrun, ?_⟩
  rw [hread]
  intro hempty
  have hbytes : ByteArray.empty = (Picture.text .standard grid).toUTF8 := Except.ok.inj hempty
  exact Picture.text_ne_empty .standard grid (String.toByteArray_eq_empty_iff.1 hbytes.symm)

end CircuitPicture
