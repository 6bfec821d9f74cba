import Fixture.CommandLine
import Fixture.Proofs.Toml.Lawful
/-!
# Saved settings

Settings go to a file as a document, and a later start of the program reads
the file. The file is found again since writing only adds a file to the
folder: every directory on the way to it is still a directory, so its path
leads to the same place, and that place now holds what was written.

A field that is not written keeps what was there. Only one field is ever left
out: a serial line that is in use says nothing of being left alone. So
settings replace all others that have their line in use as well, the standard
ones and the blank ones among them. The flags of a start are put over the
settings of its file, and a start that has no flag but the one for the file
changes nothing.

All of this is about any package for documents that is lawful, and about any
package for command lines: what a command is told of its flags is a parameter.

## Main results

* `Folder.read_of_write`: what was written is read.
* `Settings.Plain.decode_eq`: settings are read as they were written.
* `CommandLine.decode_marshal`: settings are read as they were written, from a
  document and from a file.
-/

namespace Fixture

/-! ## Files -/

namespace Folder

attribute [local simp] place? follow trace locateNew read write

/-- The directories of a folder are directories of another one. -/
def Within (f g : Folder) : Prop :=
  ∀ steps, f.place? steps = some .directory → g.place? steps = some .directory

/-- A path leads to the same place if all directories on the way are still
there. -/
private theorem Within.follow_eq_ok {f g : Folder} (h : f.Within g)
    {here there steps : List String}
    (hfollow : f.follow here steps = .ok there) :
    g.follow here steps = .ok there := by
  induction steps generalizing here with
  | nil => exact hfollow
  | cons step steps ih =>
      rw [follow] at hfollow ⊢
      cases hplace : f.place? here with
      | none =>
          rw [hplace] at hfollow
          cases hfollow
      | some place =>
          rw [hplace] at hfollow
          cases place with
          | file bytes => cases hfollow
          | directory =>
              rw [h here hplace]
              dsimp only at hfollow ⊢
              by_cases hstay : (step = "" || step = ".") = true
              · rw [if_pos hstay] at hfollow ⊢
                exact ih hfollow
              by_cases hup : step = ".."
              · rw [if_neg hstay, if_pos hup] at hfollow ⊢
                exact ih hfollow
              by_cases hlong : 255 < step.utf8ByteSize
              · rw [if_neg hstay, if_neg hup, if_pos hlong] at hfollow
                cases hfollow
              · rw [if_neg hstay, if_neg hup, if_neg hlong] at hfollow ⊢
                exact ih hfollow

/-- A directory is no file, and something that is known lies in it. -/
private theorem place?_eq_directory_iff (f : Folder) (steps : List String) :
    f.place? steps = some .directory ↔
      (∀ e ∈ f.files, steps ≠ e.1) ∧
      ∃ known ∈ f.working :: f.directories ++ f.files.map (·.1),
        steps.isPrefixOf known = true := by
  have hnone : f.files.lookup steps = none ↔ ∀ e ∈ f.files, steps ≠ e.1 := by
    simp [List.lookup_eq_none_iff]
  rw [← hnone, ← List.any_eq_true, place?]
  cases hfile : f.files.lookup steps with
  | some bytes => simp
  | none =>
      dsimp only
      split
      next hany => exact ⟨fun _ => ⟨rfl, hany⟩, fun _ => rfl⟩
      next hany => exact ⟨fun h => (by cases h), fun h => absurd h.2 hany⟩

/-- A folder with a file in it, in the place of another one if there is one. -/
def put (f : Folder) (steps : List String) (bytes : List UInt8) : Folder :=
  { f with files := (steps, bytes) :: f.files.filter fun e => e.1 != steps }

private theorem place?_put_self (f : Folder) (steps : List String)
    (bytes : List UInt8) :
    (f.put steps bytes).place? steps = some (.file bytes) := by
  simp [put]

/-- A file does not take the place of a directory. -/
private theorem within_put {f : Folder} {steps : List String}
    (h : f.place? steps ≠ some .directory) (bytes : List UInt8) :
    f.Within (f.put steps bytes) := by
  intro here hplace
  have hne : here ≠ steps := fun heq => h (heq ▸ hplace)
  rw [place?_eq_directory_iff] at hplace ⊢
  obtain ⟨hfiles, known, hknown, hin⟩ := hplace
  refine ⟨?_, known, ?_, hin⟩
  · intro e he
    rcases List.mem_cons.1 he with rfl | he
    · exact hne
    · exact hfiles e (List.mem_of_mem_filter he)
  · rcases List.mem_append.1 hknown with hknown | hknown
    · exact List.mem_append_left _ hknown
    · obtain ⟨e, he, rfl⟩ := List.mem_map.1 hknown
      refine List.mem_append_right _ ?_
      by_cases heq : e.1 = steps
      · exact List.mem_cons.2 (.inl heq)
      · have hkept : e ∈ f.files.filter fun e => e.1 != steps :=
          List.mem_filter.2 ⟨he, bne_iff_ne.2 heq⟩
        exact List.mem_cons_of_mem _ (List.mem_map_of_mem hkept)

/-- A file that was written is the file of its path, and there was no directory
before. -/
private theorem write_eq_none {f g : Folder} {path : String}
    {bytes : List UInt8} (h : f.write path bytes = (none, g)) :
    ∃ steps, f.locate path = .ok steps ∧ f.place? steps ≠ some .directory ∧
      g = f.put steps bytes := by
  have hnew {steps : List String} (hsteps : f.locateNew path = .ok steps) :
      f.locate path = .ok steps := by
    rw [locateNew] at hsteps
    split at hsteps
    · split at hsteps <;> cases hsteps
    · exact hsteps
  rw [write] at h
  cases hsteps : f.locateNew path with
  | error o =>
      rw [hsteps] at h
      cases h
  | ok steps =>
      rw [hsteps] at h
      dsimp only at h
      split at h
      next => cases h
      next hplace =>
        cases h
        exact ⟨steps, hnew hsteps, hplace, rfl⟩

/-- A whole path leads to the same place from the same working directory. -/
private theorem Within.trace_eq_ok {f g : Folder} (h : f.Within g)
    (hworking : g.working = f.working) {path : String}
    {steps there : List String} (htrace : f.trace path steps = .ok there) :
    g.trace path steps = .ok there := by
  rw [trace] at htrace ⊢
  rw [hworking]
  by_cases hvalid : path.toList.contains (Char.ofNat 0) = true
  · rw [if_pos hvalid] at htrace
    cases htrace
  by_cases hlong : 4096 ≤ path.utf8ByteSize
  · rw [if_neg hvalid, if_pos hlong] at htrace
    cases htrace
  rw [if_neg hvalid, if_neg hlong] at htrace ⊢
  split at htrace
  next => cases htrace
  next => exact h.follow_eq_ok htrace
  next => exact h.follow_eq_ok htrace

/-- **What was written is read.** -/
theorem read_of_write {f g : Folder} {path : String} {bytes : List UInt8}
    (h : f.write path bytes = (none, g)) : g.read path = .ok bytes := by
  obtain ⟨steps, hlocate, hplace, rfl⟩ := write_eq_none h
  have hagain : (f.put steps bytes).locate path = .ok steps :=
    (within_put hplace bytes).trace_eq_ok rfl hlocate
  rw [read, hagain]
  dsimp only
  rw [place?_put_self]

end Folder

/-! ## Documents -/

namespace Settings

open Toml

/-- Settings that can be written: visible texts and finite numbers. -/
structure Plain (c : Settings) : Prop where
  device : ∀ ch ∈ c.serial.device.toList, Visible ch
  level : ∀ ch ∈ c.log.level.toList, Visible ch
  format : ∀ ch ∈ c.log.format.toList, Visible ch
  linearMaxFlow : c.axes.linearMaxFlow.isFinite = true
  rotaryMaxFlow : c.axes.rotaryMaxFlow.isFinite = true
  linearLimit : c.axes.linearLimit.isFinite = true
  rotaryLimit : c.axes.rotaryLimit.isFinite = true

private theorem Plain.shape {c : Settings} (h : c.Plain) :
    shape.Plain c := by
  simp only [Shape.Plain, Settings.shape, serialShape, axesShape, logShape,
    List.forall_mem_cons, List.not_mem_nil, false_imp_iff, implies_true,
    and_true]
  exact ⟨⟨h.device, trivial, trivial, trivial⟩,
    ⟨h.linearMaxFlow, h.rotaryMaxFlow, h.linearLimit, h.rotaryLimit⟩,
    h.level, h.format⟩

/-- Where names differ, a name is looked up as the thing that has it. -/
private theorem find?_name {β : Type} {name : β → String} {xs : List β}
    (h : (xs.map name).Nodup) {x : β} (hx : x ∈ xs) :
    xs.reverse.find? (fun y => name y == name x) = some x := by
  have hrev : (xs.reverse.map name).Nodup := by
    rw [List.map_reverse]
    exact List.nodup_reverse.2 h
  have hmem : x ∈ xs.reverse := List.mem_reverse.2 hx
  generalize xs.reverse = ys at hrev hmem
  induction ys with
  | nil => cases hmem
  | cons y ys ih =>
      rw [List.map_cons, List.nodup_cons] at hrev
      rcases List.mem_cons.1 hmem with rfl | hmem
      · exact List.find?_cons_of_pos (beq_self_eq_true (name x))
      · have hne : name y ≠ name x :=
          fun heq => hrev.1 (heq ▸ List.mem_map_of_mem hmem)
        rw [List.find?_cons_of_neg (by simpa using hne)]
        exact ih hrev.2 hmem

private theorem table_sound {t : TableShape Settings} (ht : t ∈ shape.tables) :
    t.Sound tomlSettings := by
  have hnodup : ∀ t ∈ shape.tables.map fun t => t.fields.map (·.name),
      t.Nodup := by decide +kernel
  have hbare : ∀ t ∈ shape.tables.map fun t => t.fields.map (·.name),
      ∀ name ∈ t, Bare name := by decide +kernel
  have hnames := List.mem_map_of_mem (f := fun t => t.fields.map (·.name)) ht
  refine ⟨fun f hf => ?_, fun f hf => ?_, hnodup _ hnames⟩
  · exact find?_name (hnodup _ hnames) hf
  · exact hbare _ hnames _ (List.mem_map_of_mem hf)

/-- Keys lead to the fields whose names they are. -/
private theorem shape_sound : shape.Sound tomlSettings := by
  have hnodup : (shape.tables.map (·.name)).Nodup := by decide +kernel
  have hbare : ∀ name ∈ shape.tables.map (·.name), Bare name := by
    decide +kernel
  refine ⟨fun t ht => table_sound ht, fun t ht => ?_, fun t ht => ?_, hnodup⟩
  · exact find?_name hnodup ht
  · exact hbare _ (List.mem_map_of_mem ht)

/-- All fields of settings together are the settings. -/
private theorem copy_eq (c : Settings) {base : Settings}
    (h : base.serial.disabled = false) : shape.copy c base = c := by
  obtain ⟨⟨device, baud, readTimeout, disabled⟩, axes, log⟩ := c
  cases disabled with
  | true => rfl
  | false =>
      obtain ⟨⟨_, _, _, disabled⟩, _, _⟩ := base
      cases h
      rfl

/--
**Settings are read as they were written,** over all others that do not leave
the line alone.
-/
theorem Plain.decode_eq {c : Settings} (h : c.Plain) {toml : Package}
    (hlaws : toml.Lawful) : ∃ bytes, c.marshal toml = .ok bytes ∧
      ∀ base : Settings, base.serial.disabled = false →
        base.decode toml bytes = .ok c := by
  obtain ⟨bytes, hmarshal, hdecode⟩ :=
    hlaws.decode_of_marshal shape_sound h.shape
  refine ⟨bytes, hmarshal, fun base hbase => ?_⟩
  rw [decode, hdecode, copy_eq c hbase]

end Settings

/-! ## The command line -/

namespace CommandLine

attribute [local simp] load makeSettings dumpSettings

/-- A step that is done, and the rest of the run. -/
private theorem run_bind_eq {α β : Type} {x : StateM Folder α}
    {k : α → StateM Folder β} {f g : Folder} {a : α} (h : x.run f = (a, g)) :
    (x >>= k).run f = (k a).run g := by
  rw [StateT.run_bind, h]
  rfl

/-- Flags that are not set change nothing. -/
private theorem applyFlags_eq {ctx : Context}
    (h : ∀ name, name ≠ configFlag.name → ctx.globalIsSet name = false)
    (c : Settings) : applyFlags ctx c = c := by
  have hunset (flag : Flag) (hflag : flag.name ≠ configFlag.name)
      (c : Settings) (change : String → Settings → Settings) :
      applyFlag ctx flag c change = c := by
    rw [applyFlag, h _ hflag]
    rfl
  simp only [applyFlags]
  rw [hunset _ (by decide), hunset _ (by decide), hunset _ (by decide),
    hunset _ (by decide), hunset _ (by decide)]

/-- A file that is read as settings makes them, if no other flag is set. -/
private theorem makeSettings_of_read {toml : Toml.Package} {ctx : Context}
    {f : Folder} {path : String} {bytes : List UInt8} {c : Settings}
    (hconfig : ctx.globalString configFlag.name = path) (hpath : path ≠ "")
    (hflags : ∀ name, name ≠ configFlag.name → ctx.globalIsSet name = false)
    (hread : f.read path = .ok bytes)
    (hdecode : Settings.standard.decode toml bytes = .ok c) :
    (makeSettings toml Folder.surroundings ctx).run f = (.ok c, f) := by
  have hempty : ¬ path.isEmpty = true := by simpa using hpath
  have hstep : (Folder.surroundings.read path).run f = (.ok bytes, f) := by
    rw [← hread]
    rfl
  have hload : (load toml Folder.surroundings path Settings.standard).run f =
      (.ok c, f) := by
    rw [load, run_bind_eq hstep]
    simp only [hdecode]
    rfl
  simp only [makeSettings, hconfig, if_neg hempty]
  rw [run_bind_eq hload]
  simp only [applyFlags_eq hflags]
  rfl

/-- Settings that were written to a file are in the file. -/
private theorem write_of_dumpSettings {toml : Toml.Package} {ctx : Context}
    {f g : Folder} {path : String} {more : List String} {bytes : List UInt8}
    {c : Settings}
    (hsettings : (makeSettings toml Folder.surroundings ctx).run f =
      (.ok c, f))
    (hmarshal : c.marshal toml = .ok bytes) (hargs : ctx.args = path :: more)
    (hdump : (dumpSettings toml Folder.surroundings ctx).run f =
      (.printed "", g)) : f.write path bytes = (none, g) := by
  obtain ⟨⟨r, g'⟩, hwrite⟩ : ∃ y, f.write path bytes = y := ⟨_, rfl⟩
  have hstep : (Folder.surroundings.write path bytes).run f = (r, g') := hwrite
  rw [dumpSettings, run_bind_eq hsettings] at hdump
  simp only [hmarshal, hargs] at hdump
  rw [run_bind_eq hstep] at hdump
  cases r with
  | some e => cases hdump
  | none =>
      cases hdump
      exact hwrite

/-- Nothing is written without a path. -/
private theorem path_ne_empty {f g : Folder} {path : String}
    {bytes : List UInt8} (h : f.write path bytes = (none, g)) : path ≠ "" := by
  rintro rfl
  obtain ⟨steps, hlocate, -, -⟩ := Folder.write_eq_none h
  have hmissing : f.locate "" = .error .missing := rfl
  cases hmissing.symm.trans hlocate

/--
**Settings are read as they were written,** over blank settings and over the
standard ones, by every lawful package. So a start that writes its settings to
a file and a later start that is given the file, and no other flag, work with
the same settings; and the later one shows the same document when it is asked
for its settings.
-/
theorem decode_marshal {toml : Toml.Package} (hlaws : toml.Lawful)
    {c : Settings} (h : c.Plain) :
    ∃ bytes, c.marshal toml = .ok bytes ∧
      Settings.blank.decode toml bytes = .ok c ∧
      Settings.standard.decode toml bytes = .ok c ∧
      ∀ (ctx : Context) (f g : Folder) (path : String) (more : List String),
        (makeSettings toml Folder.surroundings ctx).run f = (.ok c, f) →
        ctx.args = path :: more →
        (dumpSettings toml Folder.surroundings ctx).run f = (.printed "", g) →
        ∀ ctx' : Context, ctx'.globalString configFlag.name = path →
          (∀ name, name ≠ configFlag.name → ctx'.globalIsSet name = false) →
          (makeSettings toml Folder.surroundings ctx').run g = (.ok c, g) ∧
          (ctx'.args = [] →
            (dumpSettings toml Folder.surroundings ctx').run g =
              (.printed (Text.ofUtf8 bytes), g)) := by
  obtain ⟨bytes, hmarshal, hdecode⟩ := h.decode_eq hlaws
  refine ⟨bytes, hmarshal, hdecode _ rfl, hdecode _ rfl, ?_⟩
  intro ctx f g path more hsettings hargs hdump ctx' hconfig hflags
  have hwrite := write_of_dumpSettings hsettings hmarshal hargs hdump
  have hagain : (makeSettings toml Folder.surroundings ctx').run g =
      (.ok c, g) :=
    makeSettings_of_read hconfig (path_ne_empty hwrite) hflags
      (Folder.read_of_write hwrite) (hdecode _ rfl)
  refine ⟨hagain, fun hnone => ?_⟩
  rw [dumpSettings, run_bind_eq hagain]
  simp only [hmarshal, hnone]
  rfl

/--
Settings with quotes and backslashes, the least integer, a zero below zero,
and the least and the largest number.
-/
def extreme : Settings where
  serial := ⟨"\"C:\\line\\\"", Int64.minValue, -1, true⟩
  axes := ⟨-0, Float.ofBits 1, Float.ofBits 0x7FEFFFFFFFFFFFFF, 0.1⟩
  log := ⟨"debug", "json"⟩

/-- What a command is told if only the settings file is given. -/
def fileOnly (path : String) (args : List String) : Context :=
  .ofFlags (Flags.read globalFlags ["--config", path])
    (Flags.read [] args)

theorem decode_marshal_extreme : Toml.package.Lawful ∧ extreme.Plain ∧
    ∃ bytes, extreme.marshal Toml.package = .ok bytes ∧
      Settings.blank.decode Toml.package bytes = .ok extreme ∧
      Settings.standard.decode Toml.package bytes = .ok extreme ∧
      ∃ f g : Folder,
        (dumpSettings Toml.package Folder.surroundings
          (fileOnly "old" ["new"])).run f = (.printed "", g) ∧
        (makeSettings Toml.package Folder.surroundings
          (fileOnly "new" [])).run g = (.ok extreme, g) := by
  have hplain : extreme.Plain := by
    refine ⟨?_, ?_, ?_, ?_, ?_, ?_, ?_⟩
    · simp [extreme, Toml.Visible]
    · simp [extreme, Toml.Visible]
    · simp [extreme, Toml.Visible]
    · decide +kernel
    · decide +kernel
    · decide +kernel
    · decide +kernel
  obtain ⟨bytes, hmarshal, hblank, hstandard, hsaved⟩ :=
    decode_marshal Toml.package_lawful hplain
  have hunset (path : String) (args : List String) (name : String)
      (hname : name ≠ configFlag.name) :
      (fileOnly path args).globalIsSet name = false := by
    have hread : Flags.read globalFlags ["--config", path] =
        ⟨[("config", .text path)], [], none⟩ := rfl
    have hne : ¬ "config" = name := Ne.symm hname
    simp [fileOnly, Context.ofFlags, hread, Flags.Result.named?, hne]
  let f : Folder := ⟨[], [], [(["old"], bytes)]⟩
  let g : Folder := f.put ["new"] bytes
  have hold : (makeSettings Toml.package Folder.surroundings
      (fileOnly "old" ["new"])).run f = (.ok extreme, f) :=
    makeSettings_of_read rfl (by decide) (hunset "old" ["new"]) rfl hstandard
  have hnew : (dumpSettings Toml.package Folder.surroundings
      (fileOnly "old" ["new"])).run f = (.printed "", g) := by
    rw [dumpSettings, run_bind_eq hold]
    simp only [hmarshal]
    rfl
  have hagain := (hsaved (fileOnly "old" ["new"]) f g "new" [] hold rfl hnew
    (fileOnly "new" []) rfl (hunset "new" [])).1
  exact ⟨Toml.package_lawful, hplain, bytes, hmarshal, hblank, hstandard, f, g,
    hnew, hagain⟩

end CommandLine

end Fixture
