import SourceOutline.Files.Machine

/-!
# What a writer leaves behind

A text that is written where a path leads either goes to a device, and then no entry changes, or it
becomes the content of a file there, and then no other entry changes (`Machine.write_cases`,
`Store.find?_put_of_ne`).  A file never is a step of a way, so every path that led somewhere leads
there still (`Store.walk_put_file`), and what was written can be read where it was written
(`Machine.read_put_file`).
-/

namespace SourceOutline.Files

theorem exists_of_bind_eq_ok {ε α β : Type} {x : Except ε α} {f : α → Except ε β} {b : β}
    (h : x.bind f = .ok b) : ∃ a, x = .ok a ∧ f a = .ok b := by
  cases x with
  | error fault => exact absurd h (by simp [Except.bind])
  | ok a => exact ⟨a, rfl, h⟩

theorem exists_of_map_eq_ok {ε α β : Type} {x : Except ε α} {f : α → β} {b : β}
    (h : x.map f = .ok b) : ∃ a, x = .ok a ∧ f a = b := by
  cases x with
  | error fault => exact absurd h (by simp [Except.map])
  | ok a => exact ⟨a, rfl, Except.ok.inj h⟩

/-- Where a path to be written leads. -/
def Store.place (store : Store) (text : String) : Except Fault Place :=
  (Path.accept text).bind store.target

namespace Store

variable {store : Store} {place : Place}

/-- A file can stand at a place: one does, or nothing does. -/
def TakesFile (store : Store) (place : Place) : Prop :=
  store.find? place = none ∨ ∃ content, store.find? place = some (.file content)

theorem TakesFile.isPrefixOf_eq_false (h : store.TakesFile place) :
    place.isPrefixOf store.working = false := by
  by_cases hprefix : place.isPrefixOf store.working = true
  · have hfolder : store.find? place = some .folder := by rw [find?, if_pos hprefix]
    rcases h with hnone | ⟨content, hfile⟩
    · exact absurd (hfolder.symm.trans hnone) (by simp)
    · exact absurd (hfolder.symm.trans hfile) (by simp)
  · exact eq_false_of_ne_true hprefix

/-! ## Entries after a change -/

/-- What was put at a place is found there. -/
theorem find?_put (h : store.TakesFile place) (entry : Entry) :
    (store.put place entry).find? place = some entry := by
  rw [find?, put, h.isPrefixOf_eq_false, if_neg Bool.false_ne_true]
  exact List.lookup_cons_self

/-- Nothing changes at other places. -/
theorem find?_put_of_ne {other : Place} (h : other ≠ place) (entry : Entry) :
    (store.put place entry).find? other = store.find? other := by
  have hlookup : ∀ entries : List (Place × Entry),
      (entries.filter fun other => other.1 != place).lookup other = entries.lookup other := by
    intro entries
    induction entries with
    | nil => rfl
    | cons first entries ih =>
        obtain ⟨key, found⟩ := first
        by_cases hkey : key = place
        · subst hkey
          rw [List.filter_cons_of_neg (by simp), List.lookup_cons, ih, beq_false_of_ne h]
        · rw [List.filter_cons_of_pos (by simpa using hkey), List.lookup_cons, List.lookup_cons, ih]
  rw [find?, find?, put]
  show (if _ then _ else List.lookup other ((place, entry) :: _)) = _
  rw [List.lookup_cons, beq_false_of_ne h, hlookup]

/-- A new file is put at its place. -/
theorem eq_put_of_create {content : ByteArray} {after : Store}
    (h : store.create place content = .ok after) : after = store.put place (.file content) := by
  rw [create] at h
  split at h
  · exact absurd h (by simp)
  · exact (Except.ok.inj h).symm

/-- A path to be written leads where it leads anyway, and does not end with a slash. -/
theorem locate_of_target {path : Path} (h : store.target path = .ok place) :
    store.locate path = .ok place ∧ path.trailing = false := by
  rw [target] at h
  by_cases htrailing : path.trailing = true
  · rw [if_pos htrailing] at h
    obtain ⟨folder, -, hfault⟩ := exists_of_bind_eq_ok h
    exact absurd hfault (by simp)
  · rw [if_neg htrailing] at h
    exact ⟨h, eq_false_of_ne_true htrailing⟩

/-- A path that leads to a file resolves to it, if it does not end with a slash. -/
theorem resolve_of_file {path : Path} {content : ByteArray}
    (hlocate : store.locate path = .ok place) (htrailing : path.trailing = false)
    (hfile : store.find? place = some (.file content)) :
    store.resolve path = .ok (.file content) := by
  rw [resolve, hlocate]
  simp only [bind, Except.bind, hfile, htrailing, Bool.false_and]
  rfl

/-! ## One name of a way -/

section Names

variable {links : Nat} {start next : Place} {name : String} {rest : List String}
  (hstep : store.step start name = .ok next)

include hstep

/-- A link is followed from the root, if one more may be followed. -/
theorem walk_over_link {target : Place} (hlink : store.find? next = some (.link target)) :
    store.walk (links + 1) start (name :: rest) = store.walk links [] (target ++ rest) := by
  rw [walk, hstep]
  simp only [hlink]

theorem walk_of_links_spent {target : Place} (hlink : store.find? next = some (.link target)) :
    store.walk 0 start (name :: rest) = .error .tooManyLinks := by
  rw [walk, hstep]
  simp only [hlink]

/-- What is no link is passed through. -/
theorem walk_over_name (hlink : ∀ target, store.find? next ≠ some (.link target)) :
    store.walk links start (name :: rest) = store.walk links next rest := by
  rw [walk, hstep]
  -- of the two branches, the one for links asks for a link
  simp only

theorem walk_over_entry {entry : Entry} (hentry : store.find? next = some entry)
    (hlink : ∀ target, entry ≠ .link target) :
    store.walk links start (name :: rest) = store.walk links next rest :=
  walk_over_name hstep fun target htarget =>
    hlink target (Option.some.inj (hentry.symm.trans htarget))

end Names

/-! ## Ways after a change -/

variable (h : store.TakesFile place) (content : ByteArray)

include h

/-- A step that can be made can still be made. -/
theorem step_put_file {start next : Place} {name : String}
    (hstep : store.step start name = .ok next) :
    (store.put place (.file content)).step start name = .ok next := by
  have hne : start ≠ place := by
    rintro rfl
    rw [step] at hstep
    rcases h with hnone | ⟨old, hfile⟩
    · rw [hnone] at hstep
      exact absurd hstep (by simp)
    · rw [hfile] at hstep
      exact absurd hstep (by simp)
  rw [step, find?_put_of_ne hne, ← step, hstep]

/-- There are links where there were links, with the same targets. -/
theorem find?_put_file_eq_link_iff (other target : Place) :
    (store.put place (.file content)).find? other = some (.link target)
      ↔ store.find? other = some (.link target) := by
  by_cases hother : other = place
  · subst hother
    rw [find?_put h]
    constructor
    · intro hlink
      exact Entry.noConfusion (Option.some.inj hlink)
    · intro hlink
      rcases h with hnone | ⟨old, hfile⟩
      · exact absurd (hnone.symm.trans hlink) (by simp)
      · exact absurd (hfile.symm.trans hlink) (by simp)
  · rw [find?_put_of_ne hother]

/-- **A WAY STAYS** when a file is written: it has no file as a step, and its links are the same. -/
theorem walk_put_file {links : Nat} {start found : Place} {names : List String}
    (hwalk : store.walk links start names = .ok found) :
    (store.put place (.file content)).walk links start names = .ok found := by
  induction links, start, names using Store.walk.induct store with
  | case1 links start =>
      rw [walk] at hwalk ⊢
      exact hwalk
  | case2 links start name rest fault hstep =>
      rw [walk, hstep] at hwalk
      exact absurd hwalk (by simp)
  | case3 start name rest next hstep target hlink =>
      rw [walk_of_links_spent hstep hlink] at hwalk
      exact absurd hwalk (by simp)
  | case4 start name rest next hstep target hlink left ih =>
      rw [walk_over_link hstep hlink] at hwalk
      rw [walk_over_link (step_put_file h content hstep)
        ((find?_put_file_eq_link_iff h content next target).mpr hlink)]
      exact ih hwalk
  | case5 links start name rest next hstep hlink ih =>
      rw [walk_over_name hstep hlink] at hwalk
      rw [walk_over_name (step_put_file h content hstep) fun target hafter =>
        hlink target ((find?_put_file_eq_link_iff h content next target).mp hafter)]
      exact ih hwalk

/-- A path still leads where it led. -/
theorem locate_put_file {path : Path} {found : Place} (hlocate : store.locate path = .ok found) :
    (store.put place (.file content)).locate path = .ok found :=
  walk_put_file h content hlocate

end Store

namespace Machine

variable {machine after : Machine} {text content : String}

/-- A writer first finds the place. -/
theorem write_eq : machine.write text content = (machine.store.place text).bind fun place =>
    match machine.store.find? place with
    | some (.device device) =>
      (device.write machine.streams content).map fun streams => { machine with streams }
    | some (.file _) =>
      .ok { machine with store := machine.store.put place (.file content.toUTF8) }
    | none => (machine.store.create place content.toUTF8).map fun store => { machine with store }
    | some .folder | some (.register _) | some (.link _) => .error .isADirectory := by
  rw [write, Store.place]
  cases Path.accept text <;> rfl

/-- **ALL THAT A WRITER CAN DO**: hand the text to a device, or put it where a file can stand. -/
theorem write_cases (h : machine.write text content = .ok after) :
    ∃ place, machine.store.place text = .ok place ∧
      ((∃ device streams, machine.store.find? place = some (.device device) ∧
          device.write machine.streams content = .ok streams ∧
          after = { machine with streams }) ∨
        machine.store.TakesFile place ∧
          after = { machine with store := machine.store.put place (.file content.toUTF8) }) := by
  rw [write_eq] at h
  obtain ⟨place, hplace, hwrite⟩ := exists_of_bind_eq_ok h
  refine ⟨place, hplace, ?_⟩
  split at hwrite
  · next device hdevice =>
      obtain ⟨streams, hstreams, hafter⟩ := exists_of_map_eq_ok hwrite
      exact .inl ⟨device, streams, hdevice, hstreams, hafter.symm⟩
  · next old hfile => exact .inr ⟨.inr ⟨old, hfile⟩, (Except.ok.inj hwrite).symm⟩
  · next hnone =>
      obtain ⟨store, hcreate, hafter⟩ := exists_of_map_eq_ok hwrite
      refine .inr ⟨.inl hnone, ?_⟩
      rw [← hafter, Store.eq_put_of_create hcreate]
  · exact absurd hwrite (by simp)
  · exact absurd hwrite (by simp)
  · exact absurd hwrite (by simp)

/-- What was written where a file can stand is read there. -/
theorem read_put_file {place : Place} (hplace : machine.store.place text = .ok place)
    (htakes : machine.store.TakesFile place) (bytes : ByteArray) :
    ({ machine with store := machine.store.put place (.file bytes) } : Machine).read text
      = .ok bytes := by
  obtain ⟨path, haccept, htarget⟩ := exists_of_bind_eq_ok hplace
  obtain ⟨hlocate, htrailing⟩ := Store.locate_of_target htarget
  have hresolve : (machine.store.put place (.file bytes)).resolve path = .ok (.file bytes) :=
    Store.resolve_of_file (Store.locate_put_file htakes bytes hlocate) htrailing
      (Store.find?_put htakes _)
  rw [read, haccept]
  simp only [bind, Except.bind, hresolve]

end Machine

end SourceOutline.Files
