import WordAsm.Command.Assemble
import WordAsm.Proofs.BuiltinSet
import WordAsm.Proofs.Outcomes

/-! What the command that assembles a file does to the directory that it works in. Wherever the
directory lies and whatever the paths are, the command changes the file alone that its output leads
to, and nothing if it fails, unless the image does not fit. It compares its output with its input by
their cleaned texts. As long as these do not leave the directory that is enough: a path inside leads
where its cleaned components say. A path that goes up and comes back, and a file with two names, can
still be the input. -/

namespace WordAsm

namespace Path

/-- A component that is looked up in a folder. -/
structure IsName (component : String) : Prop where
  notBlank : ¬(component = "" ∨ component = ".")
  notUp : component ≠ ".."
  short : Text.byteCount component ≤ maxComponentBytes

end Path

namespace Directory

/-- What components lead to from a folder. -/
inductive Leads (dir : Directory) (site : Site) : List String → List String → Place → Prop where
  | stop {folder : List String} : Leads dir site folder [] .folder
  | blank {folder rest : List String} {component : String} {place : Place}
    (hblank : component = "" ∨ component = ".") (hrest : Leads dir site folder rest place) :
    Leads dir site folder (component :: rest) place
  | up {folder rest : List String} {place : Place}
    (hrest : Leads dir site folder.dropLast rest place) : Leads dir site folder (".." :: rest) place
  | enter {folder rest : List String} {component : String} {place : Place}
    (hname : Path.IsName component)
    (hfile : dir.file? (Path.relative site.home (folder ++ [component])) site = none)
    (hfolder : dir.isFolder site (Path.relative site.home (folder ++ [component])) = true)
    (hrest : Leads dir site (folder ++ [component]) rest place) :
    Leads dir site folder (component :: rest) place
  | file {folder : List String} {component : String} (hname : Path.IsName component)
    (hfile : (dir.file? (Path.relative site.home (folder ++ [component])) site).isSome = true) :
    Leads dir site folder [component] (.file (Path.relative site.home (folder ++ [component])))
  | vacant {folder : List String} {component : String} (hname : Path.IsName component)
    (hfile : dir.file? (Path.relative site.home (folder ++ [component])) site = none)
    (hfolder : dir.isFolder site (Path.relative site.home (folder ++ [component])) = false) :
    Leads dir site folder [component] (.vacant (Path.relative site.home (folder ++ [component])))

/-- What a path leads to. -/
structure LeadsTo (dir : Directory) (site : Site) (path : String) (place : Place) : Prop where
  nonempty : path ≠ ""
  short : Text.byteCount path ≤ Path.maxBytes
  leads : Leads dir site (site.start path) (Path.split path) place

variable {dir : Directory} {site : Site} {folder components name : List String}
  {component path : String} {place : Place}

theorem follow_of_blank (hblank : component = "" ∨ component = ".") :
    dir.follow site folder (component :: components) = dir.follow site folder components := by
  rw [follow.eq_def]
  exact if_pos hblank

theorem follow_up :
    dir.follow site folder (".." :: components) = dir.follow site folder.dropLast components := by
  rw [follow.eq_def]
  exact (if_neg (by decide)).trans (if_pos rfl)

theorem follow_of_isName (hname : Path.IsName component) :
    dir.follow site folder (component :: components) =
      let name := Path.relative site.home (folder ++ [component])
      if (dir.file? name site).isSome then
        if components.isEmpty then .ok (.file name) else .error .notDirectory
      else if dir.isFolder site name then dir.follow site (folder ++ [component]) components
      else if components.isEmpty then .ok (.vacant name) else .error .missing := by
  rw [follow, if_neg hname.notBlank, if_neg hname.notUp, if_neg (Nat.not_lt.mpr hname.short)]

theorem isName_of_follow (hblank : ¬(component = "" ∨ component = ".")) (hup : component ≠ "..")
    (h : dir.follow site folder (component :: components) = .ok place) :
    Path.IsName component := by
  rw [follow, if_neg hblank, if_neg hup] at h
  split at h
  · cases h
  · rename_i hshort
    exact ⟨hblank, hup, Nat.le_of_not_lt hshort⟩

theorem leads_of_follow (h : dir.follow site folder components = .ok place) :
    Leads dir site folder components place := by
  induction components generalizing folder with
  | nil =>
    rw [follow] at h
    exact Except.ok.inj h ▸ .stop
  | cons component rest ih =>
    by_cases hblank : component = "" ∨ component = "."
    · rw [follow_of_blank hblank] at h
      exact .blank hblank (ih h)
    by_cases hup : component = ".."
    · rw [hup, follow_up] at h
      exact hup ▸ .up (ih h)
    have hname := isName_of_follow hblank hup h
    rw [follow_of_isName hname] at h
    dsimp only at h
    -- only the last component may be a file or a free place
    split at h
    · split at h
      · rename_i hfile hrest
        rw [List.isEmpty_iff.mp hrest]
        exact Except.ok.inj h ▸ .file hname hfile
      · cases h
    rename_i hfile
    rw [Bool.not_eq_true, Option.isSome_eq_false_iff, Option.isNone_iff_eq_none] at hfile
    split at h
    · exact .enter hname hfile ‹_› (ih h)
    split at h
    · rename_i hfolder hrest
      rw [List.isEmpty_iff.mp hrest]
      exact Except.ok.inj h ▸ .vacant hname hfile (Bool.eq_false_iff.mpr hfolder)
    · cases h

theorem follow_eq_ok_iff :
    dir.follow site folder components = .ok place ↔ Leads dir site folder components place := by
  refine ⟨leads_of_follow, fun h => ?_⟩
  induction h with
  | stop => rw [follow]
  | blank hblank _ ih => rw [follow_of_blank hblank, ih]
  | up _ ih => rw [follow_up, ih]
  | enter hname hfile hfolder _ ih =>
    rw [follow_of_isName hname]
    dsimp only
    rw [hfile, if_neg (by decide), if_pos hfolder, ih]
  | file hname hfile =>
    rw [follow_of_isName hname]
    dsimp only
    rw [if_pos hfile]
    rfl
  | vacant hname hfile hfolder =>
    rw [follow_of_isName hname]
    dsimp only
    rw [hfile, hfolder]
    rfl

/-- The name of a file, or of the place for one. -/
@[simp]
def Place.name? : Place → Option (List String)
  | .file name | .vacant name => some name
  | .folder => none

/-- A slash at the end of a path leads to no file. -/
theorem Leads.getLast?_ne (h : Leads dir site folder components place)
    (hname : place.name? = some name) : components.getLast? ≠ some "" := by
  have hlast : ∃ last, components.getLast? = some last ∧ last ≠ "" := by
    induction h with
    | stop => cases hname
    | blank _ _ ih | up _ ih | enter _ _ _ _ ih =>
      obtain ⟨last, hlast, hne⟩ := ih hname
      refine ⟨last, ?_, hne⟩
      rw [List.getLast?_cons, hlast]
      rfl
    | file hcomponent _ | vacant hcomponent _ _ =>
      exact ⟨_, rfl, fun hempty => hcomponent.notBlank (.inl hempty)⟩
  obtain ⟨last, hlast, hne⟩ := hlast
  rw [hlast]
  exact fun hempty => hne (Option.some.inj hempty)

/-- Where a path leads to a file there is one. -/
theorem Leads.isSome_file? (h : Leads dir site folder components place)
    (hplace : place = .file name) : (dir.file? name site).isSome = true := by
  induction h with
  | stop | vacant => cases hplace
  | blank _ _ ih | up _ ih | enter _ _ _ _ ih => exact ih hplace
  | file _ hfile =>
    cases hplace
    exact hfile

theorem forbid_pathFault?_eq_ok_iff :
    forbid (pathFault? path) = .ok () ↔ path ≠ "" ∧ Text.byteCount path ≤ Path.maxBytes := by
  rw [forbid_eq_ok_iff, pathFault?]
  split
  · simp [*]
  split
  · simp [*]
  · simp_all

theorem locate_eq_ok_iff : dir.locate site path = .ok place ↔ LeadsTo dir site path place := by
  rw [locate, bind_eq_ok_iff]
  constructor
  · rintro ⟨_, hfault, hfollow⟩
    obtain ⟨hnonempty, hshort⟩ := forbid_pathFault?_eq_ok_iff.mp hfault
    exact ⟨hnonempty, hshort, follow_eq_ok_iff.mp hfollow⟩
  · rintro ⟨hnonempty, hshort, hleads⟩
    exact ⟨(), forbid_pathFault?_eq_ok_iff.mpr ⟨hnonempty, hshort⟩, follow_eq_ok_iff.mpr hleads⟩

/-- A path leads to one place. -/
theorem LeadsTo.unique {other : Place} (h : LeadsTo dir site path place)
    (hother : LeadsTo dir site path other) : place = other :=
  Except.ok.inj ((locate_eq_ok_iff.mpr h).symm.trans (locate_eq_ok_iff.mpr hother))

/-- Without a slash at the end the components to write to are those of the path. -/
theorem dropWhile_reverse_of_getLast? (components : List String)
    (h : components.getLast? ≠ some "") :
    (components.reverse.dropWhile (· = "")).reverse = components := by
  rcases List.eq_nil_or_concat' components with rfl | ⟨front, last, rfl⟩
  · rfl
  · have hlast : last ≠ "" := by
      rintro rfl
      exact h List.getLast?_concat
    rw [List.reverse_append, List.reverse_singleton, List.singleton_append, List.dropWhile_cons,
      if_neg (by simpa using hlast), List.reverse_cons, List.reverse_reverse]

/-- Writing goes where the path leads, to a file or to the place for one. -/
theorem locateForWriting_eq_ok_iff :
    dir.locateForWriting site path = .ok name ↔
      ∃ place, LeadsTo dir site path place ∧ place.name? = some name := by
  rw [locateForWriting, bind_eq_ok_iff]
  constructor
  · rintro ⟨_, hfault, h⟩
    obtain ⟨hnonempty, hshort⟩ := forbid_pathFault?_eq_ok_iff.mp hfault
    obtain ⟨place, hfollow, h⟩ := bind_eq_ok_iff.mp h
    have hname : place.name? = some name := by
      cases place with
      | folder => cases h
      | file | vacant =>
        cases h
        rfl
    refine ⟨place, ⟨hnonempty, hshort, ?_⟩, hname⟩
    have hleads := follow_eq_ok_iff.mp hfollow
    -- a slash at the end is kept, and no file lies behind it
    split at hleads
    · exact absurd List.getLast?_concat (hleads.getLast?_ne hname)
    · rename_i hslash
      rwa [dropWhile_reverse_of_getLast? _ hslash] at hleads
  · rintro ⟨place, ⟨hnonempty, hshort, hleads⟩, hname⟩
    refine ⟨(), forbid_pathFault?_eq_ok_iff.mpr ⟨hnonempty, hshort⟩, ?_⟩
    have hslash := hleads.getLast?_ne hname
    dsimp only
    rw [if_neg hslash, dropWhile_reverse_of_getLast? _ hslash, follow_eq_ok_iff.mpr hleads]
    cases place with
    | folder => cases hname
    | file | vacant => exact congrArg Except.ok (Option.some.inj hname)

theorem read_eq_ok_iff (contents : List UInt8) :
    dir.read site path = .ok contents ↔
      ∃ name, LeadsTo dir site path (.file name) ∧ dir.file? name site = some contents := by
  constructor
  · intro h
    rw [read] at h
    split at h
    · rename_i name hlocate
      have hleads := locate_eq_ok_iff.mp hlocate
      obtain ⟨found, hfound⟩ := Option.isSome_iff_exists.mp (hleads.leads.isSome_file? rfl)
      rw [hfound] at h
      exact ⟨name, hleads, hfound.trans (congrArg some (Except.ok.inj h))⟩
    all_goals cases h
  · rintro ⟨name, hleads, hcontents⟩
    rw [read, locate_eq_ok_iff.mpr hleads]
    dsimp only
    rw [hcontents, Option.getD_some]

theorem lookup_cons_eq (entry : List String × List UInt8) (files : List (List String × List UInt8))
    (other : List String) :
    (entry :: files).lookup other =
      if other = entry.1 then some entry.2 else files.lookup other := by
  rw [List.lookup_cons]
  by_cases h : other = entry.1
  · rw [if_pos h, beq_iff_eq.mpr h]
  · rw [if_neg h, beq_eq_false_iff_ne.mpr h]

/-- Giving a file its contents changes that file alone, under all of its names. -/
@[simp]
theorem file?_put (dir : Directory) (site : Site) (target other : List String)
    (contents : List UInt8) :
    (dir.put target contents).file? other site =
      if site.kept other = target then some contents else dir.file? other site := by
  obtain ⟨files⟩ := dir
  change (put.replace target contents files).lookup (site.kept other) =
    if _ then _ else files.lookup (site.kept other)
  -- the first entry of a name is both the one that is replaced and the one that is looked up
  induction files with
  | nil => exact lookup_cons_eq (target, contents) [] (site.kept other)
  | cons entry files ih =>
    rw [put.replace, lookup_cons_eq entry files]
    split
    · rename_i hsame
      rw [lookup_cons_eq, hsame]
      split
      · rfl
      · rfl
    · rename_i hother
      rw [lookup_cons_eq, ih]
      split
      · rename_i hentry
        rw [if_neg (hentry ▸ hother)]
      · rfl

end Directory

namespace Command.Assemble

/-- What a source is assembled to: with the set that is asked for, or with the usual one if there is
none of that name. -/
def Options.Assembles (options : Options) (source : List UInt8) (program : Program) : Prop :=
  ∃ asm,
    Assembler.ofSet ((InstructionSet.builtin? options.isa).getD .zirc16) options.strict = .ok asm ∧
      asm.assemble options.input (Text.decode source) = .ok program

/-- The set and the input are named, the output is not the input, and the contents of the input
assemble to the program. -/
structure Prepares (options : Options) (contents : Except AccessFault (List UInt8))
    (source : List UInt8) (program : Program) : Prop where
  isa : options.isa ≠ ""
  input : options.input ≠ ""
  apart : Path.clean (outputPath options).1 ≠ Path.clean options.input
  contents : contents = .ok source
  assembles : options.Assembles source program

/-- Everything that a run needs: the set is named, the input leads to a file with a source that can
be assembled, and the output, which is another path by its text, leads to a file or to the place for
one. -/
structure Ready (options : Options) (dir : Directory) (site : Site) (input output : List String)
    (source : List UInt8) (program : Program) : Prop where
  isa : options.isa ≠ ""
  apart : Path.clean (outputPath options).1 ≠ Path.clean options.input
  reads : dir.LeadsTo site options.input (.file input)
  contents : dir.file? input site = some source
  assembles : options.Assembles source program
  writes : ∃ place, dir.LeadsTo site (outputPath options).1 place ∧ place.name? = some output

theorem chooseSet_fst (options : Options) :
    (chooseSet options).1 = (InstructionSet.builtin? options.isa).getD .zirc16 := by
  rw [chooseSet]
  cases InstructionSet.builtin? options.isa with
  | none => rw [Option.getD_none]
  | some set => rw [Option.getD_some]

theorem outputPath_snd_iff (options : Options) :
    (outputPath options).2 = true ↔
      Path.clean (outputPath options).1 = Path.clean options.input :=
  beq_iff_eq

/-- Preparing fails, or the image is to go to the output. -/
theorem prepare_cases (options : Options) (contents : Except AccessFault (List UInt8))
    (dump : List Statement → String) :
    (∃ outcome, prepare options contents dump = .error outcome ∧ outcome.exitCode = 1 ∧
      ¬∃ source program, Prepares options contents source program) ∨
    ∃ job source program, prepare options contents dump = .ok job ∧
      Prepares options contents source program ∧
      job.path = (outputPath options).1 ∧ job.code = program.code := by
  have hset := chooseSet_fst options
  have hsame := outputPath_snd_iff options
  rw [prepare]
  rcases hchoice : chooseSet options with ⟨set, trace⟩
  rcases hpath : outputPath options with ⟨path, overwrites⟩
  rw [hchoice] at hset
  rw [hpath] at hsame
  dsimp only at hset hsame ⊢
  -- each of the checks in turn fails, or is one thing less to do
  split
  · rename_i hempty
    refine .inl ⟨_, rfl, rfl, ?_⟩
    rintro ⟨source, program, hprepares⟩
    exact hempty.elim hprepares.isa hprepares.input
  rename_i hnamed
  rw [not_or] at hnamed
  split
  · rename_i hoverwrites
    refine .inl ⟨_, rfl, rfl, ?_⟩
    rintro ⟨source, program, hprepares⟩
    apply hprepares.apart
    rw [hpath]
    exact hsame.mp hoverwrites
  rename_i hoverwrites
  have hapart : Path.clean (outputPath options).1 ≠ Path.clean options.input := by
    rw [hpath]
    exact fun hclean => hoverwrites (hsame.mpr hclean)
  split
  · refine .inl ⟨_, rfl, rfl, ?_⟩
    rintro ⟨source, program, hprepares⟩
    cases hprepares.contents
  rename_i source
  split
  · rename_i fault hfault
    refine .inl ⟨_, rfl, rfl, ?_⟩
    rintro ⟨other, program, hprepares⟩
    obtain ⟨asm, hasm, -⟩ := hprepares.assembles
    rw [← hset, hfault] at hasm
    cases hasm
  rename_i asm hasm
  split
  · rename_i fault hfault
    refine .inl ⟨_, rfl, rfl, ?_⟩
    rintro ⟨other, program, hprepares⟩
    cases hprepares.contents
    obtain ⟨other, hother, hprogram⟩ := hprepares.assembles
    rw [← hset, hasm] at hother
    cases hother
    rw [hfault] at hprogram
    cases hprogram
  · rename_i program hprogram
    rw [hset] at hasm
    exact .inr ⟨_, source, program, rfl,
      ⟨hnamed.1, hnamed.2, hapart, rfl, asm, hasm, hprogram⟩, rfl, rfl⟩

variable {options : Options} {dir : Directory} {site : Site} {input output : List String}
  {source : List UInt8} {program : Program}

theorem Ready.prepares (h : Ready options dir site input output source program) :
    Prepares options (dir.read site options.input) source program :=
  ⟨h.isa, h.reads.nonempty, h.apart,
    (Directory.read_eq_ok_iff source).mpr ⟨input, h.reads, h.contents⟩, h.assembles⟩

theorem Options.Assembles.unique {other : Program} (h : options.Assembles source program)
    (hother : options.Assembles source other) : program = other := by
  obtain ⟨asm, hasm, hprogram⟩ := h
  obtain ⟨asm', hasm', hother⟩ := hother
  rw [hasm] at hasm'
  cases hasm'
  exact Except.ok.inj (hprogram.symm.trans hother)

/-- There is one way at most in which everything is ready. -/
theorem Ready.unique {input' output' : List String} {source' : List UInt8} {program' : Program}
    (h : Ready options dir site input output source program)
    (h' : Ready options dir site input' output' source' program') :
    input = input' ∧ output = output' ∧ source = source' ∧ program = program' := by
  cases h.reads.unique h'.reads
  obtain ⟨place, hplace, hname⟩ := h.writes
  obtain ⟨place', hplace', hname'⟩ := h'.writes
  have houtput : some output = some output' := by
    rw [← hname, ← hname', hplace.unique hplace']
  cases Option.some.inj (h.contents.symm.trans h'.contents)
  exact ⟨rfl, Option.some.inj houtput, rfl, h.assembles.unique h'.assembles⟩

/-- A run fails and leaves the directory alone, or everything was ready and it has written. -/
theorem run_cases (options : Options) (dump : List Statement → String) (dir : Directory)
    (site : Site) :
    (∃ outcome, run options dir dump site = (outcome, dir) ∧ outcome.exitCode = 1 ∧
      ∀ input output source program, ¬Ready options dir site input output source program) ∨
    ∃ outcome input output source program, Ready options dir site input output source program ∧
      run options dir dump site =
        (outcome, dir.put (site.kept output) (site.fitting program.code)) ∧
      outcome.exitCode = if site.fitting program.code = program.code then 0 else 1 := by
  rw [run]
  rcases prepare_cases options (dir.read site options.input) dump with
    ⟨outcome, hprepare, hexit, hnot⟩ | ⟨job, source, program, hprepare, hprepares, hpath, hcode⟩
  · rw [hprepare]
    refine .inl ⟨outcome, rfl, hexit, ?_⟩
    intro input output source program hready
    exact hnot ⟨source, program, hready.prepares⟩
  rw [hprepare]
  dsimp only
  rw [hpath, hcode, Directory.write]
  cases hlocate : dir.locateForWriting site (outputPath options).1 with
  | error fault =>
    -- nothing has been touched yet when the output cannot be opened
    refine .inl ⟨_, rfl, rfl, ?_⟩
    intro input output source program hready
    have hok := Directory.locateForWriting_eq_ok_iff.mpr hready.writes
    rw [hlocate] at hok
    cases hok
  | ok output =>
    obtain ⟨input, hreads, hcontents⟩ := (Directory.read_eq_ok_iff source).mp hprepares.contents
    have hwrites := Directory.locateForWriting_eq_ok_iff.mp hlocate
    refine .inr ⟨_, input, output, source, program, ?_, rfl, ?_⟩
    · exact ⟨hprepares.isa, hprepares.apart, hreads, hcontents, hprepares.assembles, hwrites⟩
    · dsimp only
      split
      · rfl
      · rfl

/-- If everything is ready, the run writes. -/
theorem Ready.run_eq (h : Ready options dir site input output source program)
    (dump : List Statement → String) :
    (run options dir dump site).1.exitCode =
        (if site.fitting program.code = program.code then 0 else 1) ∧
      (run options dir dump site).2 =
        dir.put (site.kept output) (site.fitting program.code) := by
  rcases run_cases options dump dir site with
    ⟨-, -, -, hnot⟩ | ⟨outcome, input', output', source', program', hready, hrun, hexit⟩
  · exact absurd h (hnot input output source program)
  · obtain ⟨-, rfl, -, rfl⟩ := h.unique hready
    rw [hrun]
    exact ⟨hexit, rfl⟩

end Command.Assemble

/-- A source of one instruction, which has an image of two bytes. -/
def haltSource : List UInt8 := Text.encode "hlt\n".toList

/-- The source in a folder, beside another file. -/
def haltProject : Directory :=
  ⟨[(["src", "in.s"], haltSource), (["notes"], [7])]⟩

/-- Assembles the source, whatever name the set is asked for by. -/
def haltOptions (isa output : String) : Command.Assemble.Options :=
  ⟨isa, "src/in.s", output, false, false, false⟩

theorem haltSource_assembles (isa output : String) :
    ∃ program, (haltOptions isa output).Assembles haltSource program ∧ program.code = [0, 0] := by
  obtain ⟨asm, hasm, hrun⟩ := exists_ok_of_any (Assembler.ofSet Zirc16.table false)
    (fun asm => (do
      let program ← asm.assemble "src/in.s" (Text.decode haltSource)
      return program.code) = .ok [0, 0])
    (by decide +kernel)
  obtain ⟨program, hprogram, hcode⟩ := bind_eq_ok_iff.mp (of_decide_eq_true hrun)
  refine ⟨program, ⟨asm, ?_, hprogram⟩, Except.ok.inj hcode⟩
  rw [InstructionSet.builtin?_getD, InstructionSet.zirc16_eq_table]
  exact hasm

open Command.Assemble in
theorem haltProject_ready (isa output : String) (site : Site) (place : Directory.Place)
    (name : List String) (hisa : isa ≠ "")
    (hapart : Path.clean (outputPath (haltOptions isa output)).1 ≠ Path.clean "src/in.s")
    (hreads : haltProject.locate site "src/in.s" = .ok (.file ["src", "in.s"]))
    (hcontents : haltProject.file? ["src", "in.s"] site = some haltSource)
    (hwrites : haltProject.locate site (outputPath (haltOptions isa output)).1 = .ok place)
    (hname : place.name? = some name) :
    ∃ program, program.code = [0, 0] ∧
      Ready (haltOptions isa output) haltProject site ["src", "in.s"] name haltSource program := by
  obtain ⟨program, hprogram, hcode⟩ := haltSource_assembles isa output
  refine ⟨program, hcode, hisa, hapart, ?_, hcontents, hprogram, place, ?_, hname⟩
  · exact Directory.locate_eq_ok_iff.mp hreads
  · exact Directory.locate_eq_ok_iff.mp hwrites

open Command in
/-- Neither condition on the paths can be left out: through the name of the directory itself, or
through a second name of the file, the input is overwritten by a path that is cleaned to another
text. -/
theorem input_overwritten_under_another_path :
    let overwrites (site : Site) (output : String) : Prop :=
      let run := Assemble.run (haltOptions "zirc16" output) haltProject (fun _ => "") site
      run.1.exitCode = 0 ∧ run.2.file? ["src", "in.s"] site = some [0, 0]
    overwrites ⟨["work"], [], [], none⟩ "../work/src/in.s" ∧
      overwrites ⟨["work"], [], [(["copy"], ["src", "in.s"])], none⟩ "copy" := by
  intro overwrites
  have hover (site : Site) (output : String) (name : List String) (hroom : site.room = none)
      (hkept : site.kept ["src", "in.s"] = site.kept name)
      (hready : ∃ program, program.code = [0, 0] ∧ Assemble.Ready (haltOptions "zirc16" output)
        haltProject site ["src", "in.s"] name haltSource program) : overwrites site output := by
    obtain ⟨program, hcode, hready⟩ := hready
    obtain ⟨hexit, hafter⟩ := hready.run_eq fun _ => ""
    have hfits : site.fitting program.code = program.code := by simp [Site.fitting, hroom]
    rw [hfits, if_pos rfl] at hexit
    refine ⟨hexit, ?_⟩
    rw [hafter, hfits, hcode]
    simp [hkept]
  constructor
  · apply hover _ _ ["src", "in.s"] rfl rfl
    exact haltProject_ready "zirc16" "../work/src/in.s" _ (.file ["src", "in.s"]) _ (by decide)
      (by decide +kernel) (by decide +kernel) (by decide) (by decide +kernel) rfl
  · apply hover _ _ ["copy"] rfl (by decide)
    exact haltProject_ready "zirc16" "copy" _ (.file ["copy"]) _ (by decide) (by decide +kernel)
      (by decide +kernel) (by decide) (by decide +kernel) rfl

-- the name of a set may lead back to the input, and then its output is refused
example :
    (Command.Assemble.outputPath ⟨"/../prog.s", "prog.s", "", false, false, false⟩).2 = true := by
  decide +kernel

end WordAsm
