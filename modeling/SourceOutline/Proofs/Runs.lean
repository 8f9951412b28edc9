import SourceOutline.Command.Program
import SourceOutline.Files.Hierarchy
import SourceOutline.Proofs.Requests
import SourceOutline.Proofs.Writing

/-!
# All or nothing

A run makes its whole output before any of it goes out, and the output is the same wherever it goes.
So there are four ways for a run to fail (`Fails`), and each of them leaves the machine with nothing
but a message; otherwise the run ends well with the whole output at one place (`Delivered`): in the
report, in one file, or with a device.

The proof follows the run: reading and making the output do not change the machine (`serve_run`), so
one writer is left to look at, which either changes nothing (`deliver_run_of_some`) or does all that
it was asked to (`delivered_of_write`).
-/

namespace SourceOutline.Command

open Files

/-! ## Runs on machines -/

/-- The text that a machine has for a request. -/
def document (machine : Machine) : Source → Except Fault String
  | .standardInput => decode machine.streams.input
  | .file path => (machine.read path).bind decode

/-- What a text encodes is the text. -/
theorem decode_toUTF8 (text : String) : decode text.toUTF8 = .ok text := by
  rw [decode, String.fromUTF8?, String.toUTF8_eq_toByteArray, dif_pos text.isValidUTF8]
  rfl

/-- The exit code of a run that carries out a request, and the machine after its report. -/
def carryOut (machine : Machine) (request : Request) : Nat × Machine :=
  let (report, after) := (machineHost.serve request).run machine
  (report.exit, { after with streams := after.streams.say report.output report.errors })

/-- Words that are accepted are carried out as the request they stand for. -/
theorem perform_eq_carryOut {words : List String} {request : Request}
    (h : readArguments words = .request request) (machine : Machine) :
    perform machine words = carryOut machine request := by
  rw [perform, run, h]
  rfl

variable {machine : Machine} {request : Request}

/-- A run reads, makes the output and hands it over; only the last changes the machine. -/
theorem serve_run : (machineHost.serve request).run machine =
    match document machine request.source with
    | .error fault => (.failure ("Error: " ++ (unreadable request.source fault).message), machine)
    | .ok text =>
      match request.produce text with
      | .error refusal => (.failure ("Error: " ++ refusal.message), machine)
      | .ok output => (machineHost.deliver request output).run machine := by
  have hread : ((machineHost.fetch request.source).run machine).1.bind decode
        = document machine request.source ∧
      ((machineHost.fetch request.source).run machine).2 = machine := by
    cases request.source <;> exact ⟨rfl, rfl⟩
  rw [Host.serve, StateT.run_bind]
  show (match ((machineHost.fetch request.source).run machine).1.bind decode with
      | .error fault => _
      | .ok text => _ : StateM Machine Report).run _ = _
  rw [hread.1, hread.2]
  cases document machine request.source with
  | error fault => rfl
  | ok text =>
      simp only
      cases request.produce text <;> rfl

/-- Without a path, the output becomes part of the report. -/
theorem deliver_run_of_none {output : String} (hpath : request.output = none) :
    (machineHost.deliver request output).run machine = (.success output, machine) := by
  rw [Host.deliver, hpath]
  rfl

/-- A writer that fails changes nothing. -/
theorem deliver_run_of_some {path output : String} (hpath : request.output = some path) :
    (machineHost.deliver request output).run machine =
      match machine.write path output with
      | .ok after => (.success "", after)
      | .error fault =>
        (.failure ("Error writing " ++ path ++ ": " ++ fault.message), machine) := by
  have hwriter : (machineHost.writeDocument path output).run machine =
      match machine.write path output with
      | .ok after => (.ok (), after)
      | .error fault => (.error fault, machine) := by
    show (match machine.write path output with
      | .ok after => do set after; return .ok ()
      | .error fault => return .error fault : StateM Machine (Except Fault Unit)).run machine = _
    cases machine.write path output <;> rfl
  rw [Host.deliver, hpath]
  simp only [StateT.run_bind, hwriter]
  cases machine.write path output <;> rfl

/-! ## Failing runs -/

/-- Why a run fails. -/
inductive Fails (machine : Machine) (request : Request) : Prop
  /-- There is no document, or it is no text. -/
  | unreadable {fault : Fault} : document machine request.source = .error fault →
      Fails machine request
  | contextOfTokens : request.format = .tokens → request.context.isSome = true →
      Fails machine request
  | contextLineZero : request.context = some 0 → Fails machine request
  /-- There is an output, but the place for it does not take it. -/
  | unwritable {path text output : String} {fault : Fault} : request.output = some path →
      document machine request.source = .ok text → request.produce text = .ok output →
      machine.write path output = .error fault → Fails machine request

/-- A failure is said on the stream for errors and in the exit code, and nowhere else. -/
theorem carryOut_of_failure {message : String}
    (h : (machineHost.serve request).run machine = (.failure message, machine)) :
    (carryOut machine request).1 = 1 ∧ (carryOut machine request).2.store = machine.store ∧
      (carryOut machine request).2.streams.output = machine.streams.output := by
  rw [carryOut, h]
  exact ⟨rfl, rfl, String.append_empty⟩

/-- **A RUN THAT FAILS** says so in its exit code, and leaves nothing but a message. -/
theorem carryOut_of_fails (h : Fails machine request) :
    (carryOut machine request).1 = 1 ∧ (carryOut machine request).2.store = machine.store ∧
      (carryOut machine request).2.streams.output = machine.streams.output := by
  have hrefused : (∀ text, ∃ refusal, request.produce text = .error refusal) →
      ∃ message, (machineHost.serve request).run machine = (.failure message, machine) := by
    intro hrefusal
    rw [serve_run]
    cases document machine request.source with
    | error fault => exact ⟨_, rfl⟩
    | ok text =>
        obtain ⟨refusal, hproduce⟩ := hrefusal text
        simp only [hproduce]
        exact ⟨_, rfl⟩
  obtain ⟨message, hserve⟩ :
      ∃ message, (machineHost.serve request).run machine = (.failure message, machine) := by
    cases h with
    | unreadable hdocument =>
        rw [serve_run, hdocument]
        exact ⟨_, rfl⟩
    | contextOfTokens hformat hcontext =>
        exact hrefused fun text =>
          ⟨_, produce_of_contextOfTokens request text hformat hcontext⟩
    | contextLineZero hcontext =>
        exact hrefused fun text => exists_produce_of_contextLineZero request text hcontext
    | unwritable hpath hdocument hproduce hwrite =>
        rw [serve_run, hdocument]
        simp only [hproduce, deliver_run_of_some hpath, hwrite]
        exact ⟨_, rfl⟩
  exact carryOut_of_failure hserve

/-! ## Runs that end well -/

/-- A machine that says nothing stays the same. -/
theorem say_nothing (machine : Machine) :
    { machine with streams := machine.streams.say "" "" } = machine := by
  simp only [Streams.say, String.append_empty]

/-- If the output is written, that is all a run does. -/
theorem carryOut_of_write {path text output : String} {after : Machine}
    (hpath : request.output = some path) (hdocument : document machine request.source = .ok text)
    (hproduce : request.produce text = .ok output)
    (hwrite : machine.write path output = .ok after) : carryOut machine request = (0, after) := by
  rw [carryOut, serve_run, hdocument]
  simp only [hproduce, deliver_run_of_some hpath, hwrite]
  exact congrArg (Prod.mk 0) (say_nothing after)

/-- What becomes of an output that goes to a path, or else to the report. -/
inductive Delivered (machine after : Machine) (output : String) : Option String → Prop
  | reported : after = { machine with streams := machine.streams.say output "" } →
      Delivered machine after output none
  /-- One file holds the output, and can be read where it was written; nothing else changes. -/
  | stored {path : String} {place : Place} : machine.store.place path = .ok place →
      machine.store.TakesFile place → after.streams = machine.streams →
      after.store.find? place = some (.file output.toUTF8) →
      (∀ other, other ≠ place → after.store.find? other = machine.store.find? other) →
      after.read path = .ok output.toUTF8 → Delivered machine after output (some path)
  /-- A device takes the output, and no entry changes. -/
  | taken {path : String} {place : Place} {device : Device} :
      machine.store.place path = .ok place → machine.store.find? place = some (.device device) →
      device.write machine.streams output = .ok after.streams → after.store = machine.store →
      Delivered machine after output (some path)

/-- What a writer was asked to write is delivered, to a device or to a file. -/
theorem delivered_of_write {after : Machine} {path output : String}
    (h : machine.write path output = .ok after) :
    Delivered machine after output (some path) := by
  obtain ⟨place, hplace, ⟨device, streams, hdevice, hstreams, rfl⟩ | ⟨htakes, rfl⟩⟩ :=
    Machine.write_cases h
  · exact .taken hplace hdevice hstreams rfl
  · exact .stored hplace htakes rfl (Store.find?_put htakes _)
      (fun other hne => Store.find?_put_of_ne hne _) (Machine.read_put_file hplace htakes _)

/-- **A RUN THAT DOES NOT FAIL** delivers what it would print. -/
theorem carryOut_of_not_fails (h : ¬ Fails machine request) :
    (carryOut machine request).1 = 0 ∧ ∃ text output,
      document machine request.source = .ok text ∧ request.produce text = .ok output ∧
      carryOut machine { request with output := none }
        = (0, { machine with streams := machine.streams.say output "" }) ∧
      Delivered machine (carryOut machine request).2 output request.output := by
  have hdocument : ∃ text, document machine request.source = .ok text := by
    cases hread : document machine request.source with
    | error fault => exact absurd (.unreadable hread) h
    | ok text => exact ⟨text, rfl⟩
  obtain ⟨text, hdocument⟩ := hdocument
  obtain ⟨output, hproduce⟩ := exists_produce request text
    (fun ⟨hformat, hcontext⟩ => h (.contextOfTokens hformat hcontext))
    (fun hcontext => h (.contextLineZero hcontext))
  have hreported : ∀ other : Request, other.output = none → other.source = request.source →
      other.produce text = .ok output → carryOut machine other
        = (0, { machine with streams := machine.streams.say output "" }) := by
    intro other houtput hsource hother
    rw [carryOut, serve_run, hsource, hdocument]
    simp only [hother, deliver_run_of_none houtput]
    rfl
  -- where the output goes is not looked at while it is made
  have hplain := hreported { request with output := none } rfl rfl hproduce
  cases hpath : request.output with
  | none =>
      rw [hreported request hpath rfl hproduce]
      exact ⟨rfl, text, output, hdocument, hproduce, hplain, .reported rfl⟩
  | some path =>
      cases hwrite : machine.write path output with
      | error fault => exact absurd (.unwritable hpath hdocument hproduce hwrite) h
      | ok after =>
          rw [carryOut_of_write hpath hdocument hproduce hwrite]
          exact ⟨rfl, text, output, hdocument, hproduce, hplain, delivered_of_write hwrite⟩

/-- **ALL OR NOTHING**: a run fails for one of four reasons, and then nothing has changed and
nothing was printed; or it ends well, and the output for the text that was read, which the run would
print without an output path, is at the one place it was to go to. -/
theorem run_all_or_nothing {store : Store} {input : ByteArray} {words : List String}
    {request : Request} (h : readArguments words = .request request) :
    ((perform ⟨store, .start input⟩ words).1 = 1 ↔ Fails ⟨store, .start input⟩ request) ∧
    (Fails ⟨store, .start input⟩ request →
      (perform ⟨store, .start input⟩ words).2.store = store ∧
      (perform ⟨store, .start input⟩ words).2.streams.output = "") ∧
    (¬ Fails ⟨store, .start input⟩ request →
      (perform ⟨store, .start input⟩ words).1 = 0 ∧ ∃ text output,
        document ⟨store, .start input⟩ request.source = .ok text ∧
        request.produce text = .ok output ∧
        carryOut ⟨store, .start input⟩ { request with output := none }
          = (0, ⟨store, input, output, ""⟩) ∧
        Delivered ⟨store, .start input⟩ (perform ⟨store, .start input⟩ words).2 output
          request.output) := by
  rw [perform_eq_carryOut h]
  refine ⟨⟨?_, fun hfails => (carryOut_of_fails hfails).1⟩, fun hfails =>
    (carryOut_of_fails hfails).2, ?_⟩
  · intro hexit
    by_contra hfails
    rw [(carryOut_of_not_fails hfails).1] at hexit
    exact Nat.zero_ne_one hexit
  · intro hfails
    obtain ⟨hexit, text, output, hdocument, hproduce, hplain, hdelivered⟩ :=
      carryOut_of_not_fails hfails
    refine ⟨hexit, text, output, hdocument, hproduce, ?_, hdelivered⟩
    rw [hplain]
    simp only [Streams.say, Streams.start, String.empty_append]

/-- A working directory with one document in it. -/
def oneDocument : Store :=
  ⟨["work"], [(["work", "in.py"], .file "if a:\n".toUTF8)]⟩

/-- A run may write over the document that it reads. -/
theorem run_over_document :
    readArguments ["-o", "in.py", "in.py"]
      = .request ⟨.tree, .standard, none, some "in.py", .file "in.py"⟩ ∧
    (perform ⟨oneDocument, .start .empty⟩ ["-o", "in.py", "in.py"]).1 = 0 ∧ ∃ output,
      Request.produce ⟨.tree, .standard, none, some "in.py", .file "in.py"⟩ "if a:\n"
        = .ok output ∧
      carryOut ⟨oneDocument, .start .empty⟩ ⟨.tree, .standard, none, none, .file "in.py"⟩
        = (0, ⟨oneDocument, .empty, output, ""⟩) ∧
      Delivered ⟨oneDocument, .start .empty⟩
        (perform ⟨oneDocument, .start .empty⟩ ["-o", "in.py", "in.py"]).2 output
        (some "in.py") := by
  have hwords : readArguments ["-o", "in.py", "in.py"]
      = .request ⟨.tree, .standard, none, some "in.py", .file "in.py"⟩ := by decide
  have hlocate : oneDocument.locate (Path.ofString "in.py") = .ok ["work", "in.py"] := by
    calc oneDocument.walk 40 ["work"] ["in.py"]
        = oneDocument.walk 40 ["work", "in.py"] [] := Store.walk_over_entry rfl rfl (by simp)
      _ = .ok ["work", "in.py"] := by rw [Store.walk]
  have hfile : oneDocument.find? ["work", "in.py"] = some (.file "if a:\n".toUTF8) := rfl
  have hdocument : document ⟨oneDocument, .start .empty⟩ (.file "in.py") = .ok "if a:\n" := by
    have hread : Machine.read ⟨oneDocument, .start .empty⟩ "in.py" = .ok "if a:\n".toUTF8 := by
      have hresolve := Store.resolve_of_file hlocate rfl hfile
      show (oneDocument.resolve (Path.ofString "in.py")).bind _ = _
      rw [hresolve]
      rfl
    rw [document, hread]
    exact decode_toUTF8 "if a:\n"
  have hwrite : ∀ output fault,
      Machine.write ⟨oneDocument, .start .empty⟩ "in.py" output ≠ .error fault := by
    intro output fault
    have hplace : oneDocument.place "in.py" = .ok ["work", "in.py"] := hlocate
    rw [Machine.write_eq, hplace]
    simp only [Except.bind, hfile]
    simp
  have hfails : ¬ Fails ⟨oneDocument, .start .empty⟩
      ⟨.tree, .standard, none, some "in.py", .file "in.py"⟩ := by
    rintro (hunreadable | ⟨hformat, -⟩ | hzero | ⟨hpath, -, -, hunwritable⟩)
    · exact absurd (hdocument.symm.trans hunreadable) (by simp)
    · exact absurd hformat (by decide)
    · exact absurd hzero (by decide)
    · obtain rfl := Option.some.inj hpath
      exact hwrite _ _ hunwritable
  obtain ⟨hexit, text, output, htext, hproduce, hplain, hdelivered⟩ :=
    (run_all_or_nothing hwords).2.2 hfails
  obtain rfl := Except.ok.inj (hdocument.symm.trans htext)
  exact ⟨hwords, hexit, output, hproduce, hplain, hdelivered⟩

/-! ## A path to a stream -/

/-- The name of the standard output leads over three links to the stream itself. -/
theorem place_standardOutput :
    Store.standard.place "/dev/stdout" = .ok (Hierarchy.stream "1") := by
  show Store.standard.walk 40 [] ["dev", "stdout"] = .ok ["/1"]
  calc Store.standard.walk 40 [] ["dev", "stdout"]
      = Store.standard.walk 40 ["dev"] ["stdout"] := Store.walk_over_entry rfl rfl (by simp)
    _ = Store.standard.walk 39 [] (["proc", "self", "fd", "1"] ++ []) :=
      Store.walk_over_link rfl rfl
    _ = Store.standard.walk 39 ["proc"] ["self", "fd", "1"] :=
      Store.walk_over_entry rfl rfl (by simp)
    _ = Store.standard.walk 38 [] (["proc", "/self"] ++ ["fd", "1"]) :=
      Store.walk_over_link rfl rfl
    _ = Store.standard.walk 38 ["proc"] ["/self", "fd", "1"] :=
      Store.walk_over_entry rfl rfl (by simp)
    _ = Store.standard.walk 38 ["proc", "/self"] ["fd", "1"] :=
      Store.walk_over_entry rfl rfl (by simp)
    _ = Store.standard.walk 38 ["proc", "/self", "fd"] ["1"] :=
      Store.walk_over_entry rfl rfl (by simp)
    _ = Store.standard.walk 37 [] (["/1"] ++ []) := Store.walk_over_link rfl rfl
    _ = Store.standard.walk 37 ["/1"] [] := Store.walk_over_entry rfl rfl (by simp)
    _ = .ok ["/1"] := by rw [Store.walk]

theorem jsonText_ne_empty (forest : List Node) : jsonText forest ≠ "" := by
  intro hempty
  have hlast := congrArg String.toList hempty
  rw [jsonText, String.toList_append] at hlast
  exact absurd (List.append_eq_nil_iff.mp hlast).2 (by decide)

/-- An empty working directory around a process that is given a document on its input. -/
def piped : Machine :=
  ⟨Store.standard, .start "if a:\n".toUTF8⟩

theorem write_standardOutput (output : String) :
    piped.write "/dev/stdout" output
      = .ok { piped with streams := piped.streams.say output "" } := by
  have hdevice : piped.store.find? (Hierarchy.stream "1")
      = some (.device .standardOutput) := rfl
  have hplace : piped.store.place "/dev/stdout" = .ok (Hierarchy.stream "1") :=
    place_standardOutput
  rw [Machine.write_eq, hplace]
  simp only [Except.bind, hdevice]
  rfl

/-- With a path that leads to the standard output, a run prints after all. -/
theorem run_prints_through_stream :
    readArguments ["-t", "json", "-o", "/dev/stdout"]
      = .request ⟨.json, .standard, none, some "/dev/stdout", .standardInput⟩ ∧
    (perform piped ["-t", "json", "-o", "/dev/stdout"]).1 = 0 ∧
    (perform piped ["-t", "json", "-o", "/dev/stdout"]).2.streams.output ≠ "" := by
  have hwords : readArguments ["-t", "json", "-o", "/dev/stdout"]
      = .request ⟨.json, .standard, none, some "/dev/stdout", .standardInput⟩ := by decide
  have hdocument : document piped .standardInput = .ok "if a:\n" := decode_toUTF8 "if a:\n"
  have hproduce := produce_of_forest
    ⟨.json, .standard, none, some "/dev/stdout", .standardInput⟩ "if a:\n" (by decide) rfl
  refine ⟨hwords, ?_⟩
  rw [perform_eq_carryOut hwords,
    carryOut_of_write rfl hdocument hproduce (write_standardOutput _)]
  refine ⟨rfl, ?_⟩
  show "" ++ jsonText _ ≠ ""
  rw [String.empty_append]
  exact jsonText_ne_empty _

end SourceOutline.Command
