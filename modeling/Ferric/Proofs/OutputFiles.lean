import Ferric.CommandLine.Session
import Ferric.Proofs.Files.Places
import Ferric.Proofs.Output.History

/-!
# The files that a conversion writes

Every buffer is written to a file of its own, whose name is made of the buffer and an extension.
The names of buffers are checked for separators, and the extension is not.  So the files stand in
the output directory, one for each buffer, as long as the extension has no separator and the two
together are not the name of the directory above.

## Main definitions

* `Settings.Produces`: a buffer that settings can send a declaration to.
* `Host.Lawful`: a host that works on what is seen of its state.
* `Surroundings.buffers`: the buffers that a conversion hands out.
* `Wrote`: what writing buffers may change.

## Main results

* `Settings.isFileName_fileName_iff`: when the file of a buffer has a plain name.
* `Host.Lawful.wrote_writeBuffers`, `Host.Lawful.wrote_convert`: what is written.
* `Session.lawful_host`: the host of a session is one.
* `buffers_written_inside_directory`, `extension_leads_outside`: where files are written.
-/

namespace Ferric

open List CommandLine

/-! ## Buffers -/

/-- **The answer of a table**, without what it notes. -/
theorem RuleTable.value_policy (t : RuleTable) (subject : Subject) :
    (t.policy subject).value =
      match t.rules.find? (·.matchesSubject subject) with
      | none => t.fallback.map Placement.into
      | some rule => some (rule.placement t.fallback subject.name) := by
  rw [policy]
  cases t.rules.find? (·.matchesSubject subject) <;> rfl

/-- The buffer that a rule gives is its own, or else the default one. -/
theorem Rule.or_eq_some_of_placement {r : Rule} {fallback : Option String} {name : String}
    (h : (r.placement fallback name).buffer ≠ "") :
    r.buffer.or fallback = some (r.placement fallback name).buffer := by
  unfold placement at h ⊢
  by_cases skipped : r.skip = true
  · rw [if_pos skipped] at h
    exact absurd rfl h
  · rw [if_neg skipped] at h ⊢
    cases target : r.buffer.or fallback with
    | none =>
      rw [target] at h
      exact absurd rfl h
    | some buffer => cases r.rename <;> rfl

namespace Settings

variable {s : Settings} {buffer : String}

/-- **A buffer that settings can send a declaration to.** -/
def Produces (s : Settings) (buffer : String) : Prop :=
  ∃ subject, s.policy.buffer? subject = some buffer

theorem Produces.ne_empty (h : s.Produces buffer) : buffer ≠ "" := by
  obtain ⟨subject, placed⟩ := h
  exact (Policy.buffer?_eq_some_iff.1 placed).1

theorem Produces.named (h : s.Produces buffer) :
    s.placement.fallback = some buffer ∨ ∃ r ∈ s.placement.rules, r.buffer = some buffer := by
  have nonempty := h.ne_empty
  obtain ⟨subject, placed⟩ := h
  rw [Policy.buffer?, Option.filter_eq_some_iff, Option.map_eq_some_iff] at placed
  obtain ⟨⟨placement, answer, rfl⟩, -⟩ := placed
  rw [policy, RuleTable.value_policy] at answer
  -- the first rule that matches decides, or else the default buffer
  have fallback : ∀ {b}, s.table.fallback = some b → s.placement.fallback = some b :=
    fun found => (Option.filter_eq_some_iff.1 found).1
  split at answer
  · obtain ⟨b, found, rfl⟩ := Option.map_eq_some_iff.1 answer
    exact .inl (fallback found)
  · rename_i rule found
    obtain rfl := Option.some.inj answer
    rcases Option.or_eq_some_iff.1 (Rule.or_eq_some_of_placement nonempty) with own | ⟨-, default⟩
    · exact .inr ⟨rule, mem_of_find?_eq_some found, own⟩
    · exact .inl (fallback default)

/-- What is not wrong with settings that are accepted. -/
theorem of_fault?_eq_none (h : s.fault? = none) :
    (∀ b, s.placement.fallback = some b → hasSeparator b = false) ∧
      ∀ r ∈ s.placement.rules, r.fault? = none := by
  have next : fault?.next s = none → ∀ r ∈ s.placement.rules, r.fault? = none := by
    intro h
    unfold fault?.next at h
    split at h
    · cases h
    · intro r hr
      simpa using findSome?_eq_none_iff.1 h r hr
  unfold fault? at h
  split at h
  · rename_i b fallback
    split at h
    · cases h
    · rename_i plain
      refine ⟨fun c hc => ?_, next h⟩
      obtain rfl : b = c := Option.some.inj (fallback.symm.trans hc)
      simpa using plain
  · rename_i fallback
    refine ⟨fun c hc => ?_, next h⟩
    rw [fallback] at hc
    cases hc

theorem hasSeparator_of_rule {r : Rule} (h : r.fault? = none) (hb : r.buffer = some buffer) :
    hasSeparator buffer = false := by
  unfold Rule.fault? at h
  iterate 4
    split at h
    · cases h
  rename_i plain
  rw [hb, Option.any_some, Bool.or_eq_true, not_or] at plain
  simpa using plain.2

/-- **The buffers of settings that are accepted have no separators.** -/
theorem Produces.hasSeparator (h : s.Produces buffer) (accepted : s.fault? = none) :
    hasSeparator buffer = false := by
  obtain ⟨fallback, rules⟩ := of_fault?_eq_none accepted
  rcases h.named with default | ⟨r, hr, hb⟩
  · exact fallback buffer default
  · exact hasSeparator_of_rule (rules r hr) hb

/-! ## Names of files -/

theorem hasSeparator_fileName (s : Settings) (buffer : String) :
    hasSeparator (s.fileName buffer) =
      (hasSeparator buffer || hasSeparator s.output.extension) := by
  simp [fileName, Ferric.hasSeparator]

theorem slashless_of_hasSeparator {name : String} (h : hasSeparator name = false) :
    '/' ∉ name.toList := by
  intro mem
  have := any_eq_false.1 h '/' mem
  simp at this

/-- **The file of a buffer has a plain name** as long as the extension has no separator, and the
two together are not the name of the directory above. -/
theorem isFileName_fileName_iff (ne : buffer ≠ "") (slashless : '/' ∉ buffer.toList) :
    IsFileName (s.fileName buffer) ↔
      '/' ∉ s.output.extension.toList ∧ ¬ (buffer = "." ∧ s.output.extension = "") := by
  have mem : '/' ∈ (s.fileName buffer).toList ↔ '/' ∈ s.output.extension.toList := by
    simp [fileName, slashless]
  obtain ⟨c, rest, chars⟩ := exists_cons_of_ne_nil (show buffer.toList ≠ [] by simpa using ne)
  have text : (s.fileName buffer).toList = c :: (rest ++ '.' :: s.output.extension.toList) := by
    simp [fileName, chars]
  constructor
  · intro plain
    refine ⟨mt mem.2 plain.slashless, ?_⟩
    rintro ⟨rfl, extension⟩
    exact plain.ne_up (by rw [fileName, extension]; rfl)
  · rintro ⟨separate, apart⟩
    have differs : ∀ {name : String}, (s.fileName buffer).toList ≠ name.toList →
        s.fileName buffer ≠ name := fun ne same => ne (congrArg _ same)
    refine ⟨mt mem.1 separate, differs ?_, differs ?_, differs ?_⟩
    · simp [text]
    · simp [text]
    · rw [text, show "..".toList = ['.', '.'] from rfl]
      intro same
      obtain ⟨rfl, tail⟩ := cons.inj same
      cases rest with
      | nil => exact apart ⟨String.toList_inj.1 chars, by simpa using tail⟩
      | cons d rest => simp at tail

theorem fileName_congr {t : Settings} (same : t.output = s.output) :
    t.fileName buffer = s.fileName buffer := by
  rw [fileName, fileName, same]

theorem text_outputPath (ne : buffer ≠ "") (slashless : '/' ∉ buffer.toList) :
    (s.outputPath buffer).text = s.output.directory.text ++
      (if s.output.directory.text == "" || Text.endsWith s.output.directory.text "/" then ""
        else "/") ++ s.fileName buffer := by
  obtain ⟨c, rest, chars⟩ := exists_cons_of_ne_nil (show buffer.toList ≠ [] by simpa using ne)
  have relative : (Path.mk (s.fileName buffer)).isAbsolute = false := by
    rw [chars, mem_cons, not_or] at slashless
    simpa [Path.isAbsolute_eq, fileName, chars] using Ne.symm slashless.1
  rw [outputPath, Path.join, relative, if_neg Bool.false_ne_true]
  split <;> simp

/-- **Different buffers have different files.** -/
theorem outputPath_inj {other : String} (ne : buffer ≠ "") (slashless : '/' ∉ buffer.toList)
    (ne' : other ≠ "") (slashless' : '/' ∉ other.toList) :
    s.outputPath buffer = s.outputPath other ↔ buffer = other := by
  constructor
  · intro same
    have texts := congrArg Path.text same
    rw [text_outputPath ne slashless, text_outputPath ne' slashless', String.append_right_inj,
      fileName, fileName, String.append_left_inj, String.append_left_inj] at texts
    exact texts
  · rintro rfl
    rfl

end Settings

/-! ## Names of sources -/

namespace Chars

/-- The pieces of a text are made of its characters, without the separator. -/
theorem mem_of_mem_split {separator c : Char} {cs piece : List Char}
    (h : piece ∈ split separator cs) (hc : c ∈ piece) : c ∈ cs ∧ c ≠ separator := by
  induction cs generalizing piece with
  | nil =>
    rw [split, mem_singleton] at h
    exact absurd (h ▸ hc) not_mem_nil
  | cons d cs ih =>
    rw [split] at h
    split at h
    · rcases mem_cons.1 h with rfl | h
      · exact absurd hc not_mem_nil
      · exact (ih h hc).imp_left (mem_cons_of_mem _)
    · rename_i other
      split at h
      · rename_i none
        exact absurd none (split_ne_nil separator cs)
      · rename_i first rest pieces
        rcases mem_cons.1 h with rfl | h
        · rcases mem_cons.1 hc with rfl | hc
          · exact ⟨mem_cons_self, other⟩
          · exact (ih (pieces ▸ mem_cons_self) hc).imp_left (mem_cons_of_mem _)
        · exact (ih (pieces ▸ mem_cons_of_mem _ h) hc).imp_left (mem_cons_of_mem _)

/-- What is joined is made of the pieces and of what stands between them. -/
theorem mem_of_mem_intercalate {c : Char} {between : List Char} {pieces : List (List Char)}
    (h : c ∈ between.intercalate pieces) : c ∈ between ∨ ∃ piece ∈ pieces, c ∈ piece := by
  induction pieces with
  | nil => exact absurd h not_mem_nil
  | cons piece pieces ih =>
    cases pieces with
    | nil =>
      rw [intercalate_singleton] at h
      exact .inr ⟨piece, mem_cons_self, h⟩
    | cons next pieces =>
      rw [intercalate_cons_cons, append_assoc, mem_append, mem_append] at h
      rcases h with h | h | h
      · exact .inr ⟨piece, mem_cons_self, h⟩
      · exact .inl h
      · exact (ih h).imp_right fun ⟨other, ho, hc⟩ => ⟨other, mem_cons_of_mem _ ho, hc⟩

end Chars

namespace Path

theorem slashless_of_mem_segments {p : Path} {segment : String} (h : segment ∈ p.segments) :
    '/' ∉ segment.toList := by
  obtain ⟨piece, hp, rfl⟩ := mem_map.1 h
  intro mem
  rw [String.toList_ofList] at mem
  exact (Chars.mem_of_mem_split hp mem).2 rfl

theorem slashless_stem {name : String} (h : '/' ∉ name.toList) : '/' ∉ (stem name).toList := by
  unfold stem
  split
  · rename_i last before pieces
    dsimp only
    split
    · exact h
    · -- the stem is made of pieces of the name and of dots
      rw [String.toList_ofList]
      intro mem
      rcases Chars.mem_of_mem_intercalate mem with dot | ⟨piece, hp, hc⟩
      · exact absurd dot (by decide)
      · have part : piece ∈ Chars.split '.' name.toList := by
          rw [← mem_reverse, pieces]
          exact mem_cons_of_mem _ (mem_reverse.1 hp)
        exact h (Chars.mem_of_mem_split part hc).1
  · exact h

/-- **The name of a source has no separator.** -/
theorem slashless_fileStem? {p : Path} {name : String} (h : p.fileStem? = some name) :
    '/' ∉ name.toList := by
  obtain ⟨whole, last, rfl⟩ := Option.map_eq_some_iff.1 h
  refine slashless_stem ?_
  unfold fileName? at last
  split at last
  · rename_i segment found
    obtain rfl := Option.some.inj last
    rcases mem_append.1 (mem_of_getLast? found) with start | named
    · split at start
      · simp at start
      · split at start <;> simp at start
    · obtain ⟨part, hp, same⟩ := mem_map.1 named
      unfold Part.ofSegment at same
      split at same
      · cases same
      · obtain rfl := Part.name.inj same
        exact slashless_of_mem_segments (mem_of_mem_filter hp)
  · cases last

end Path

theorem CommandLine.slashless_impliedBuffer (input : Path) :
    '/' ∉ (impliedBuffer input).toList := by
  rw [impliedBuffer]
  cases found : input.fileStem? with
  | none => decide
  | some name => exact Path.slashless_fileStem? found

theorem CommandLine.output_withImpliedBuffer (s : Settings) (input : Path) :
    (withImpliedBuffer s input).value.output = s.output := by
  unfold withImpliedBuffer
  split <;> rfl

/-- **A conversion sends declarations only to buffers without separators.** -/
theorem Settings.Produces.slashless {s : Settings} {input : Path} {buffer : String}
    (h : (withImpliedBuffer s input).value.Produces buffer)
    (accepted : s.fault? = none) : '/' ∉ buffer.toList := by
  unfold withImpliedBuffer at h
  split at h
  · rename_i unplaced
    rcases h.named with implied | ⟨r, hr, -⟩
    · obtain rfl : impliedBuffer input = buffer := Option.some.inj implied
      exact slashless_impliedBuffer input
    · rw [Bool.and_eq_true, List.isEmpty_iff] at unplaced
      have none : r ∈ s.placement.rules := hr
      rw [unplaced.2] at none
      exact absurd none List.not_mem_nil
  · exact slashless_of_hasSeparator (Produces.hasSeparator h accepted)

/-! ## The buffers of a conversion -/

/-- The buffers of a conversion are there once, and the policy gives them. -/
theorem Conversion.ids_run {policy : Policy} {preamble : Option Preamble} {time : Timestamp}
    {root : Node} {result : Logged (Result Unit)}
    (finished : run policy Hooks.none (Output.fresh preamble time) root () = .ok result) :
    result.value.output.ids.Nodup ∧
      ∀ id ∈ result.value.output.ids, ∃ subject, policy.buffer? subject = some id := by
  obtain ⟨written, passes, -, output⟩ := run_eq_ok finished
  obtain ⟨values, -⟩ := value_blocks passes
  have ids : result.value.output.ids = firstBy id (written.value.2.map (·.buffer)) := by
    rw [output, Output.ids_writeBlocks, map_map]
    rfl
  have nodup : ((firstBy id (written.value.2.map (·.buffer))).map id).Nodup :=
    nodup_map_firstByFrom [] _
  rw [map_id] at nodup
  rw [ids]
  refine ⟨nodup, fun name hname => ?_⟩
  obtain ⟨b, hb, rfl⟩ := mem_map.1 (mem_firstBy_id.1 hname)
  rw [values] at hb
  obtain ⟨d, -, written⟩ := mem_filterMap.1 hb
  obtain ⟨buffer, placed, rfl⟩ := Option.map_eq_some_iff.1 written
  exact ⟨_, placed⟩

theorem Request.ids_convert {r : Request} {time : Timestamp} {isThere : Bool}
    {outcome : FrontEnd.Outcome} {output : Output}
    (converted : (r.convert time isThere outcome).value = .ok output) :
    output.ids.Nodup ∧ ∀ id ∈ output.ids, ∃ subject, r.policy.buffer? subject = some id := by
  cases isThere with
  | false => cases converted
  | true =>
    rw [convert, if_pos rfl, Logged.value_bind, Logged.value_bind] at converted
    cases parsed : (FrontEnd.parse r.input.text none r.options outcome).value with
    | error fault =>
      rw [parsed] at converted
      cases converted
    | ok root =>
      rw [parsed] at converted
      dsimp only [convertTree] at converted
      cases finished :
          Conversion.run r.policy Hooks.none (Output.fresh r.preamble time) root () with
      | error overflow =>
        rw [finished] at converted
        cases converted
      | ok result =>
        rw [finished] at converted
        obtain rfl : result.value.output = output := Except.ok.inj converted
        exact Conversion.ids_run finished

/-! ## Hosts -/

/-- **What a command sees of its surroundings**: the files, the clock, and what the front end
answers to a file and a command line. -/
structure Surroundings where
  workspace : Workspace
  time : Timestamp
  frontEnd : Path → List String → FrontEnd.Outcome

section Laws

variable {S α β : Type}

theorem bind_apply (x : StateM S α) (f : α → StateM S β) (σ : S) :
    (x >>= f) σ = f (x σ).1 (x σ).2 :=
  rfl

/-- A step that answers by what is seen, and changes nothing of it. -/
def Observes (view : S → Surroundings) (step : StateM S α) (answer : Surroundings → α) : Prop :=
  ∀ σ, (step σ).1 = answer (view σ) ∧ view (step σ).2 = view σ

/-- A step that changes the workspace, or meets a fault and changes nothing. -/
def Changes (view : S → Surroundings) (step : StateM S (Except FileFault Unit))
    (change : Workspace → Except FileFault Workspace) : Prop :=
  ∀ σ, (change (view σ).workspace = .ok (view (step σ).2).workspace ∧ (step σ).1 = .ok ()) ∨
    ∃ fault, change (view σ).workspace = .error fault ∧ (step σ).1 = .error fault ∧
      view (step σ).2 = view σ

/-- **A host that works on its surroundings**: it answers by them, and only what is written and the
directories that are made change them. -/
structure Host.Lawful (host : Host (StateM S)) (view : S → Surroundings) : Prop where
  pathExists (p : Path) : Observes view (host.pathExists p) (·.workspace.pathExists p)
  frontEnd (p : Path) (arguments : List String) :
    Observes view (host.frontEnd p arguments) (·.frontEnd p arguments)
  now : Observes view host.now (·.time)
  print (text : String) : Observes view (host.print text) fun _ => ()
  remark (text : String) : Observes view (host.remark text) fun _ => ()
  keep (note : Note) : Observes view (host.keep note) fun _ => ()
  write (p : Path) (text : String) : Changes view (host.write p text) (·.write p text)
  makeDirectories (p : Path) : Changes view (host.makeDirectories p) (·.makeDirectories p)

/-- Steps that only look, one after the other, only look. -/
theorem Observes.bind {view : S → Surroundings} {x : StateM S α} {f : α → StateM S β}
    {answer : Surroundings → α} {result : α → Surroundings → β} (hx : Observes view x answer)
    (hf : ∀ a, Observes view (f a) (result a)) :
    Observes view (x >>= f) fun v => result (answer v) v := by
  intro σ
  obtain ⟨answered, seen⟩ := hx σ
  rw [bind_apply, answered, ← seen]
  exact hf _ _

theorem Observes.pure {view : S → Surroundings} (a : α) :
    Observes view (Pure.pure a) fun _ => a :=
  fun _ => ⟨rfl, rfl⟩

end Laws

namespace Surroundings

variable {s : Settings}

/-- The answer to a request. -/
def answer (v : Surroundings) (request : Request) : Logged (Except ConversionFault Output) :=
  request.convert v.time (v.workspace.pathExists request.input)
    (v.frontEnd request.input request.options.arguments)

/-- The buffers that a conversion hands out; none if it fails before. -/
def buffers (v : Surroundings) (s : Settings) (file : Option Path) : List (String × String) :=
  match s.request file with
  | .error _ => []
  | .ok request =>
    let policy := (withImpliedBuffer s request.input).value.policy
    match (v.answer { request with policy }).value with
    | .error _ => []
    | .ok output => output.buffers

/-- **The buffers of a conversion** are there once each, and can name files. -/
theorem buffers_spec (accepted : s.fault? = none) (v : Surroundings) (file : Option Path) :
    ((v.buffers s file).map (·.1)).Nodup ∧
      ∀ b ∈ (v.buffers s file).map (·.1), b ≠ "" ∧ '/' ∉ b.toList := by
  unfold buffers
  split
  · exact ⟨nodup_nil, fun _ none => nomatch none⟩
  · rename_i request requested
    dsimp only
    split
    · exact ⟨nodup_nil, fun _ none => nomatch none⟩
    · rename_i output answered
      obtain ⟨nodup, named⟩ := Request.ids_convert answered
      refine ⟨nodup, fun b hb => ?_⟩
      have produced : (withImpliedBuffer s request.input).value.Produces b := named b hb
      exact ⟨produced.ne_empty, produced.slashless accepted⟩

end Surroundings

/-! ## Files written -/

section Files

open CommandLine (Ending)

variable {s : Settings}

/-- A buffer with a plain file name is written to a file in the output directory. -/
theorem write_eq_ok {w w' : Workspace} {buffer text : String}
    (plain : IsFileName (s.fileName buffer))
    (written : w.write (s.outputPath buffer) text = .ok w') :
    ∃ directory, w.placeOf s.output.directory = .ok directory ∧
      w' = w.put (directory.down (s.fileName buffer)) (Text.bytes text) := by
  unfold Workspace.write at written
  cases located : w.locate (s.outputPath buffer) with
  | error fault =>
    rw [located] at written
    cases written
  | ok place =>
    rw [located] at written
    obtain ⟨directory, dir, rfl⟩ := Workspace.locate_join plain located
    refine ⟨directory, dir, ?_⟩
    have written : (if w.isDirectory (directory.down (s.fileName buffer)) then
        Except.error FileFault.directory
      else .ok (w.put (directory.down (s.fileName buffer)) (Text.bytes text))) = .ok w' := written
    split at written
    · cases written
    · exact (Except.ok.inj written).symm

/-- A file with an extension is not the one that is always empty. -/
theorem down_fileName_ne (directory : Workspace.Place) (buffer : String) :
    directory.down (s.fileName buffer) ≠ Workspace.emptyFile := by
  intro same
  have names : directory.names ++ [s.fileName buffer] = ["dev", "null"] :=
    congrArg Workspace.Place.names same
  have last : s.fileName buffer = "null" := by
    have := congrArg getLast? names
    rw [getLast?_concat] at this
    exact Option.some.inj this
  have dot : '.' ∈ (s.fileName buffer).toList := by simp [Settings.fileName]
  rw [last] at dot
  exact absurd dot (by decide)

theorem down_fileName_inj {directory : Workspace.Place} {buffer other : String} :
    directory.down (s.fileName buffer) = directory.down (s.fileName other) ↔ buffer = other := by
  constructor
  · intro same
    have names : directory.names ++ [s.fileName buffer] = directory.names ++ [s.fileName other] :=
      congrArg Workspace.Place.names same
    have last := singleton_inj.1 (append_cancel_left names)
    rwa [Settings.fileName, Settings.fileName, String.append_left_inj,
      String.append_left_inj] at last
  · rintro rfl
    rfl

/-- **What writing may change**: the files of the buffers in the output directory, and no others.
When all went well each of them holds its buffer. -/
structure Wrote (s : Settings) (buffers : List (String × String)) (w : Workspace)
    (ending : Ending) (w' : Workspace) : Prop where
  directories : w'.directories = w.directories
  elsewhere : ∀ place, w'.file? place ≠ w.file? place →
    ∃ directory, w.placeOf s.output.directory = .ok directory ∧
      ∃ buffer ∈ buffers.map (·.1), place = directory.down (s.fileName buffer)
  complete : ending = .done → ∀ b ∈ buffers,
    ∃ directory, w.placeOf s.output.directory = .ok directory ∧
      w'.file? (directory.down (s.fileName b.1)) = some (Text.bytes b.2)

/-- Nothing is written for no buffers, and nothing has to be where a run fails. -/
theorem Wrote.unchanged {buffers : List (String × String)} {ending : Ending} {w w' : Workspace}
    (same : w' = w) (none : ending = .done → buffers = []) : Wrote s buffers w ending w' := by
  subst same
  refine ⟨rfl, fun _ changed => absurd rfl changed, fun done b hb => ?_⟩
  rw [none done] at hb
  cases hb

theorem Wrote.congr {t : Settings} (same : t.output = s.output) {bs : List (String × String)}
    {w w' : Workspace} {ending : Ending} (h : Wrote t bs w ending w') :
    Wrote s bs w ending w' := by
  refine ⟨h.directories, ?_, ?_⟩
  · simpa only [same, Settings.fileName_congr same] using h.elsewhere
  · simpa only [same, Settings.fileName_congr same] using h.complete

/-- **One more buffer** is written before the others. -/
theorem Wrote.cons {buffer text : String} {rest : List (String × String)} {w w' : Workspace}
    {ending : Ending} {directory : Workspace.Place} (new : buffer ∉ rest.map (·.1))
    (dir : w.placeOf s.output.directory = .ok directory)
    (later : Wrote s rest (w.put (directory.down (s.fileName buffer)) (Text.bytes text)) ending
      w') :
    Wrote s ((buffer, text) :: rest) w ending w' := by
  -- a file is no directory, so that the output directory is still where it was
  have before : ∀ {d}, (w.put (directory.down (s.fileName buffer)) (Text.bytes text)).placeOf
      s.output.directory = .ok d → w.placeOf s.output.directory = .ok d :=
    Workspace.placeOf_congr rfl
  have nonempty := down_fileName_ne (s := s) directory buffer
  refine ⟨later.directories, fun place changed => ?_, fun done => forall_mem_cons.2 ⟨?_, ?_⟩⟩
  · by_cases changedLater : w'.file? place =
        (w.put (directory.down (s.fileName buffer)) (Text.bytes text)).file? place
    · refine ⟨directory, dir, buffer, mem_cons_self, ?_⟩
      rw [changedLater, Workspace.file?_put _ nonempty] at changed
      by_contra other
      exact changed (if_neg other)
    · obtain ⟨d, leads, c, hc, here⟩ := later.elsewhere place changedLater
      exact ⟨d, before leads, c, mem_cons_of_mem _ hc, here⟩
  · -- what is written later goes to the files of other buffers
    refine ⟨directory, dir, ?_⟩
    by_contra lost
    obtain ⟨d, leads, c, hc, here⟩ := later.elsewhere (directory.down (s.fileName buffer)) (by
      rwa [Workspace.file?_put _ nonempty, if_pos rfl])
    obtain rfl : directory = d := Except.ok.inj (dir.symm.trans (before leads))
    exact new (down_fileName_inj.1 here ▸ hc)
  · intro c hc
    obtain ⟨d, leads, kept⟩ := later.complete done c hc
    exact ⟨d, before leads, kept⟩

end Files

namespace Host.Lawful

variable {S : Type} {host : Host (StateM S)} {view : S → Surroundings} (laws : host.Lawful view)
  {s : Settings}

include laws

/-- Keeping notes changes nothing that is seen. -/
theorem keepNotes {α : Type} (level : Level) (x : Logged α) :
    Observes view (keepNotes host level x) fun _ => x.value := by
  have kept : ∀ ns : List Note, Observes view (ns.forM host.keep) fun _ => ⟨⟩ := by
    intro ns
    induction ns with
    | nil => exact .pure _
    | cons n ns ih => exact (laws.keep n).bind fun _ => ih
  exact (kept _).bind fun _ => .pure _

/-- Neither does printing. -/
theorem printBuffers (buffers : List (String × String)) :
    Observes view (printBuffers host buffers) fun _ => .done := by
  induction buffers with
  | nil => exact .pure _
  | cons b bs ih =>
    have next : CommandLine.printBuffers host (b :: bs) =
        (do host.print ("// ---- " ++ b.1 ++ " ----\n"); host.print b.2
            CommandLine.printBuffers host bs) := by
      simp only [CommandLine.printBuffers, forIn_cons]
      rfl
    rw [next]
    exact (laws.print _).bind fun _ => (laws.print _).bind fun _ => ih

/-- **Writing buffers** with plain file names stays in the output directory, and no buffer
overwrites another. -/
theorem wrote_writeBuffers {buffers : List (String × String)}
    (plain : ∀ buffer ∈ buffers.map (·.1), IsFileName (s.fileName buffer))
    (nodup : (buffers.map (·.1)).Nodup) (σ : S) :
    Wrote s buffers (view σ).workspace (writeBuffers host s buffers σ).1
      (view (writeBuffers host s buffers σ).2).workspace := by
  -- on the buffers that are left, whatever has been written
  induction buffers generalizing σ with
  | nil => exact .unchanged rfl fun _ => rfl
  | cons b rest ih =>
    obtain ⟨buffer, text⟩ := b
    rw [map_cons, forall_mem_cons] at plain
    rw [map_cons, nodup_cons] at nodup
    rcases laws.write (s.outputPath buffer) text σ with ⟨written, answer⟩ | ⟨fault, -, answer, kept⟩
    · obtain ⟨directory, dir, put⟩ := write_eq_ok plain.1 written
      have later := ih plain.2 nodup.2 (host.print ("Wrote " ++ (s.outputPath buffer).text ++ "\n")
        (host.write (s.outputPath buffer) text σ).2).2
      rw [(laws.print _ _).2, put] at later
      rw [writeBuffers, bind_apply, answer]
      exact .cons nodup.1 dir later
    · rw [writeBuffers, bind_apply, answer]
      exact .unchanged (congrArg _ kept) nofun

/-- What is done when the output directory is made, or cannot be made. -/
def fill (host : Host (StateM S)) (s : Settings) (output : Output) :
    Except FileFault Unit → StateM S Ending
  | .error fault => return fileFailure "create" s.output.directory fault
  | .ok () => writeBuffers host s output.buffers

/-- Buffers that are handed out as files are written after the output directory is made. -/
theorem wrote_deliver (output : Output)
    (plain : ∀ buffer ∈ output.ids, IsFileName (s.fileName buffer)) (nodup : output.ids.Nodup)
    (toStdout : Bool) (σ : S) :
    ∃ w, w.files = (view σ).workspace.files ∧
      Wrote s (if toStdout then [] else output.buffers) w
        (deliver host s toStdout output σ).1
        (view (deliver host s toStdout output σ).2).workspace := by
  cases toStdout with
  | true =>
    have printed : Observes view (deliver host s true output) fun _ => .done := by
      rw [deliver]
      cases output.isEmpty with
      | false => exact laws.printBuffers output.buffers
      | true => exact (laws.remark _).bind fun _ => laws.printBuffers output.buffers
    exact ⟨_, rfl, .unchanged (congrArg _ (printed σ).2) fun _ => rfl⟩
  | false =>
    -- the directory is made first, after a remark if there is nothing to write
    obtain ⟨σ', seen, delivered⟩ : ∃ σ', view σ' = view σ ∧ deliver host s false output σ =
        fill host s output (host.makeDirectories s.output.directory σ').1
          (host.makeDirectories s.output.directory σ').2 := by
      rw [deliver]
      cases output.isEmpty with
      | false => exact ⟨σ, rfl, rfl⟩
      | true => exact ⟨(host.remark nothingToWrite σ).2, (laws.remark _ σ).2, rfl⟩
    rw [delivered, ← seen]
    rcases laws.makeDirectories s.output.directory σ' with ⟨made, answer⟩ | ⟨fault, -, answer, kept⟩
    · rw [answer]
      exact ⟨_, Workspace.files_makeDirectories made, laws.wrote_writeBuffers plain nodup _⟩
    · rw [answer]
      exact ⟨_, rfl, .unchanged (congrArg _ kept) nofun⟩

/-- What is done with the buffers of a request. -/
def conclude (host : Host (StateM S)) (t : Settings) (toStdout : Bool) :
    Except ConversionFault Output → StateM S Ending
  | .error (.aborted overflow) => return .aborted overflow
  | .error fault => return .failed fault.report
  | .ok output => deliver host t toStdout output

/-- A conversion asks for the buffers of a request, and hands them out. -/
theorem convert_apply {file : Option Path} {request : Request}
    (requested : s.request file = .ok request) (level : Level) (toStdout : Bool) (σ : S) :
    let t := (withImpliedBuffer s request.input).value
    ∃ σ', view σ' = view σ ∧ convert host level s file toStdout σ =
      conclude host t toStdout ((view σ).answer { request with policy := t.policy }).value σ' := by
  intro t
  have implied := laws.keepNotes level (withImpliedBuffer s request.input) σ
  have asked := (laws.pathExists request.input).bind fun isThere =>
    (laws.frontEnd request.input request.options.arguments).bind fun outcome =>
    laws.now.bind fun time =>
    laws.keepNotes level ({ request with policy := t.policy }.convert time isThere outcome)
  obtain ⟨answered, seen⟩ :=
    asked (CommandLine.keepNotes host level (withImpliedBuffer s request.input) σ).2
  refine ⟨_, seen.trans implied.2, ?_⟩
  rw [implied.2] at answered
  rw [convert, requested]
  dsimp only
  rw [bind_apply, implied.1]
  exact congrArg (conclude host t toStdout · _) answered

/-- **A conversion writes its buffers**, and nothing else. -/
theorem wrote_convert (accepted : s.fault? = none) (level : Level) (file : Option Path)
    (toStdout : Bool) (σ : S)
    (plain : ∀ b ∈ ((view σ).buffers s file).map (·.1), IsFileName (s.fileName b)) :
    ∃ w, w.files = (view σ).workspace.files ∧
      Wrote s (if toStdout then [] else (view σ).buffers s file) w
        (convert host level s file toStdout σ).1
        (view (convert host level s file toStdout σ).2).workspace := by
  have nodup := ((view σ).buffers_spec accepted file).1
  cases requested : s.request file with
  | error e =>
    have failed : convert host level s file toStdout σ = (.failed e.report, σ) := by
      rw [convert, requested]
      rfl
    rw [failed]
    exact ⟨_, rfl, .unchanged rfl nofun⟩
  | ok request =>
    obtain ⟨σ', seen, converted⟩ := laws.convert_apply requested level toStdout σ
    have found : (view σ).buffers s file =
        match ((view σ).answer { request with
          policy := (withImpliedBuffer s request.input).value.policy }).value with
        | .error _ => []
        | .ok output => output.buffers := by rw [Surroundings.buffers, requested]
    rw [converted]
    cases answered : ((view σ).answer { request with
        policy := (withImpliedBuffer s request.input).value.policy }).value with
    | error fault =>
      refine ⟨_, rfl, ?_⟩
      cases fault <;> exact .unchanged (congrArg _ seen) nofun
    | ok output =>
      -- the implied buffer changes the placement only, and not where files go
      rw [answered] at found
      rw [found] at plain nodup ⊢
      have same := output_withImpliedBuffer s request.input
      obtain ⟨w, files, wrote⟩ := laws.wrote_deliver
        (s := (withImpliedBuffer s request.input).value) output
        (fun b hb => Settings.fileName_congr same ▸ plain b hb) nodup toStdout σ'
      exact ⟨w, seen ▸ files, wrote.congr same⟩

end Host.Lawful

/-- **Buffers are written inside the output directory, one file each.**  Settings that are accepted
send declarations to buffers whose files are called like the buffer with the extension behind it,
so that there are separators in what is appended to the directory exactly when the extension has
some, and different buffers have different paths.  The name is that of a file in the directory
exactly when the extension has no slash and the two together are not two dots.  A conversion, on any
host that works on its surroundings, then changes only files that stand in the directory, one for
each buffer, and when it is done each of them holds its buffer. -/
theorem buffers_written_inside_directory {s : Settings} (accepted : s.fault? = none) :
    (∀ b, s.Produces b →
      (s.outputPath b).text = s.output.directory.text ++
        (if s.output.directory.text == "" || Text.endsWith s.output.directory.text "/" then ""
          else "/") ++ s.fileName b ∧
      hasSeparator (s.fileName b) = hasSeparator s.output.extension ∧
      (IsFileName (s.fileName b) ↔
        '/' ∉ s.output.extension.toList ∧ ¬ (b = "." ∧ s.output.extension = "")) ∧
      ∀ c, s.Produces c → s.outputPath c = s.outputPath b → c = b) ∧
    ∀ {S : Type} {host : Host (StateM S)} {view : S → Surroundings}, host.Lawful view →
      ∀ (level : Level) (file output : Option Path) (defines includes : List String)
        (toStdout : Bool) (σ : S),
      let t := CommandLine.override s output defines includes
      let buffers := (view σ).buffers t file
      let ended := CommandLine.runCommand host level s
        (.convert file output defines includes toStdout) σ
      (buffers.map (·.1)).Nodup ∧
      (∀ b ∈ buffers.map (·.1), IsFileName (t.fileName b) ↔
        '/' ∉ s.output.extension.toList ∧ ¬ (b = "." ∧ s.output.extension = "")) ∧
      ((∀ b ∈ buffers.map (·.1), IsFileName (t.fileName b)) →
        ∃ w, w.files = (view σ).workspace.files ∧
          Wrote t (if toStdout then [] else buffers) w ended.1 (view ended.2).workspace) := by
  refine ⟨fun b hb => ?_, fun laws level file output defines includes toStdout σ => ?_⟩
  · have separate := hb.hasSeparator accepted
    have slashless := Settings.slashless_of_hasSeparator separate
    refine ⟨Settings.text_outputPath hb.ne_empty slashless, ?_,
      Settings.isFileName_fileName_iff hb.ne_empty slashless, fun c hc same => ?_⟩
    · rw [Settings.hasSeparator_fileName, separate, Bool.false_or]
    · have slashless' := Settings.slashless_of_hasSeparator (hc.hasSeparator accepted)
      exact (Settings.outputPath_inj hc.ne_empty slashless' hb.ne_empty slashless).1 same
  · have overridden : (CommandLine.override s output defines includes).fault? = none := accepted
    obtain ⟨nodup, named⟩ := Surroundings.buffers_spec overridden _ file
    refine ⟨nodup, fun b hb => ?_, laws.wrote_convert overridden level file toStdout σ⟩
    obtain ⟨nonempty, slashless⟩ := named b hb
    exact Settings.isFileName_fileName_iff nonempty slashless

/-! ## Sessions -/

namespace Session

/-- What a session shows. -/
def surroundings (σ : Session) : Surroundings where
  workspace := σ.workspace
  time := σ.time
  frontEnd p := FrontEnd.Recording.replay (σ.workspace.read p)

theorem changes_attempt (change : Workspace → Except FileFault Workspace) :
    Changes surroundings (attempt change) change := by
  intro σ
  have seen : change σ.surroundings.workspace = change σ.workspace := rfl
  rw [attempt, seen]
  cases change σ.workspace with
  | ok w => exact .inl ⟨rfl, rfl⟩
  | error fault => exact .inr ⟨fault, rfl, rfl, rfl⟩

/-- **The host of a session works on what the session shows.** -/
theorem lawful_host : host.Lawful surroundings where
  pathExists _ _ := ⟨rfl, rfl⟩
  frontEnd _ _ _ := ⟨rfl, rfl⟩
  now _ := ⟨rfl, rfl⟩
  print _ _ := ⟨rfl, rfl⟩
  remark _ _ := ⟨rfl, rfl⟩
  keep _ _ := ⟨rfl, rfl⟩
  write p text := changes_attempt (·.write p text)
  makeDirectories p := changes_attempt (·.makeDirectories p)

end Session

instance (ending : CommandLine.Ending) : Decidable (ending = .done) :=
  match ending with
  | .done => isTrue rfl
  | .failed _ | .misused _ | .aborted _ => isFalse nofun

/-- A session with a source that declares two variables, and two directories in the output
directory. -/
def variableSession : Session where
  workspace := .ofFiles [
    (⟨"main.c"⟩, Text.bytes (FrontEnd.Recording.header ++ "\x7b\"tree\":\x7b\"children\":[" ++
      "\x7b\"kind\":\"VarDecl\",\"spelling\":\"x\",\"type\":\"Int\"\x7d," ++
      "\x7b\"kind\":\"VarDecl\",\"spelling\":\"p\",\"type\":\"Int\"\x7d]\x7d\x7d")),
    (⟨"gen/out.a/note"⟩, []), (⟨"gen/types.a/note"⟩, [])]

/-- Settings that send one variable to a buffer of its own. -/
def splitSettings (extension : String) : Settings where
  output := { directory := ⟨"gen"⟩, extension, generatedHeader := false, prelude := [] }
  placement := {
    fallback := some "out"
    rules := [{ name := some "p", buffer := some "types" }] }

/-- Two buffers are written to two files. -/
theorem buffers_written_inside_directory_split :
    (splitSettings "rs").fault? = none ∧
      variableSession.surroundings.buffers (splitSettings "rs") (some ⟨"main.c"⟩) =
        [("out", "static mut x: i32 = 0;\n\n"), ("types", "static mut p: i32 = 0;\n\n")] ∧
      let ended := CommandLine.runCommand Session.host .warn (splitSettings "rs")
        (.convert (some ⟨"main.c"⟩) none [] [] false) variableSession
      ended.1 = .done ∧ ∃ w, w.files = variableSession.workspace.files ∧
        Wrote (splitSettings "rs")
          [("out", "static mut x: i32 = 0;\n\n"), ("types", "static mut p: i32 = 0;\n\n")] w .done
          ended.2.workspace := by
  have accepted : (splitSettings "rs").fault? = none := by decide
  have evaluated : variableSession.surroundings.buffers (splitSettings "rs") (some ⟨"main.c"⟩) =
        [("out", "static mut x: i32 = 0;\n\n"), ("types", "static mut p: i32 = 0;\n\n")] ∧
      (CommandLine.runCommand Session.host .warn (splitSettings "rs")
        (.convert (some ⟨"main.c"⟩) none [] [] false) variableSession).1 = .done := by
    decide +kernel
  refine ⟨accepted, evaluated.1, evaluated.2, ?_⟩
  have written := ((buffers_written_inside_directory accepted).2 Session.lawful_host .warn
    (some ⟨"main.c"⟩) none [] [] false variableSession).2.2
  rw [show CommandLine.override (splitSettings "rs") none [] [] = splitSettings "rs" from rfl,
    evaluated.1, evaluated.2] at written
  exact written (by decide)

/-- **An extension leads outside**: settings with steps up in the extension are accepted, and a
conversion writes both buffers to one file next to the output directory. -/
theorem extension_leads_outside :
    let s := splitSettings "a/../../escaped"
    let ended := CommandLine.runCommand Session.host .warn s
      (.convert (some ⟨"main.c"⟩) none [] [] false) variableSession
    s.fault? = none ∧ (s.outputPath "out").text = "gen/out.a/../../escaped" ∧
      (variableSession.surroundings.buffers s (some ⟨"main.c"⟩)).map (·.1) = ["out", "types"] ∧
      ended.1 = .done ∧
      variableSession.workspace.file? { names := ["escaped"] } = none ∧
      ended.2.workspace.file? { names := ["escaped"] } =
        some (Text.bytes "static mut p: i32 = 0;\n\n") ∧
      (ended.2.workspace.placeOf s.output.directory).toOption = some { names := ["gen"] } := by
  decide +kernel

end Ferric
