import LintLayer.Proofs.Runner.Recent

/-!
# The calls of a runner

What a runner asks of the outside, over runs of any files in any
configurations and with the memory emptied now and then.  The logged toolchain
writes down every call.

`Makes` says of an action which calls it adds to the log, and how they fit the
memory before and after it.  There are two uses of it.  `Books` ties the loads
and the questions for global directories to what is remembered: each of them
adds one new key.  `Resolves` tells the search for the analyzer from all else.
`cache_accounting` puts both together with the files that are remembered.
-/

namespace LintLayer

/-! ## Calls in a log -/

namespace Call

/-- The library that is loaded, by its components. -/
def library? : Call → Option (List Path.Component)
  | .load library => some library.components
  | _ => none

/-- The package manager that is asked. -/
def manager? : Call → Option PackageManager
  | .globalRoot manager => some manager
  | _ => none

/-- Whether the call looks for a module. -/
def isResolve : Call → Bool
  | .resolve .. => true
  | _ => false

end Call

/-- The libraries that are loaded in a log, in order. -/
def loadsOf (calls : List Call) : List (List Path.Component) :=
  calls.filterMap Call.library?

/-- The package managers that are asked in a log, in order. -/
def managersOf (calls : List Call) : List PackageManager :=
  calls.filterMap Call.manager?

/-- The module is looked for in the log. -/
def Resolves (calls : List Call) : Prop :=
  ∃ call ∈ calls, call.isResolve = true

theorem resolves_append {calls more : List Call} :
    Resolves (calls ++ more) ↔ Resolves calls ∨ Resolves more := by
  simp [Resolves, or_and_right, exists_or]

/-- The keys of a map, the newest first. -/
def Path.Map.keys {α : Type} (map : Path.Map α) : List (List Path.Component) :=
  map.entries.map Prod.fst

theorem notMem_keys_of_lookup {κ α : Type} [BEq κ] [LawfulBEq κ] {entries : List (κ × α)} {key : κ}
    (h : entries.lookup key = none) : key ∉ entries.map Prod.fst := by
  rw [List.lookup_eq_none_iff] at h
  intro hmem
  obtain ⟨entry, hentry, rfl⟩ := List.mem_map.mp hmem
  simpa using h entry hentry

/-- A new key comes first and removes nothing. -/
theorem Path.Map.keys_insert {α : Type} {map : Path.Map α} {path : Path}
    (h : map.get? path = none) (value : α) :
    (map.insert path value).keys = path.components :: map.keys := by
  have hnew : path.components ∉ map.entries.map Prod.fst := notMem_keys_of_lookup h
  have hkept : (map.entries.filter fun entry => entry.1 ≠ path.components) = map.entries := by
    rw [List.filter_eq_self]
    intro entry hentry
    simp only [decide_eq_true_eq]
    exact fun heq => hnew (heq ▸ List.mem_map_of_mem hentry)
  rw [keys, keys, insert, erase, hkept, List.map_cons]

namespace Runner

variable {σ lib : Type}

/-! ## Actions and their calls -/

/-- In a memory, the action adds calls to the log that stand in the relation to
the memory after it. -/
def Makes {α : Type} (runner : Runner lib) (R : List Call → Runner lib → Prop)
    (action : Action (List Call × σ) lib α) : Prop :=
  ∀ calls outside, ∃ made,
    (action runner (calls, outside)).2.1 = calls ++ made ∧
      R made (action runner (calls, outside)).1.2

section Rules

variable {α β : Type} {runner : Runner lib} {R P : List Call → Runner lib → Prop}

theorem makes_weaken {action : Action (List Call × σ) lib α} (h : Makes runner R action)
    (hweaker : ∀ made after, R made after → P made after) : Makes runner P action := by
  intro calls outside
  obtain ⟨made, hmade, hfits⟩ := h calls outside
  exact ⟨made, hmade, hweaker _ _ hfits⟩

theorem makes_pure (h : R [] runner) (answer : α) :
    Makes runner R (pure answer : Action (List Call × σ) lib α) :=
  fun calls _ => ⟨[], (List.append_nil calls).symm, h⟩

/-- What the rest of an action makes comes behind what its start has made. -/
theorem makes_bind {first : Action (List Call × σ) lib α}
    {next : α → Action (List Call × σ) lib β} (hfirst : Makes runner P first)
    (hnext : ∀ made middle, P made middle → ∀ answer,
      Makes middle (fun more after => R (made ++ more) after) (next answer)) :
    Makes runner R (first >>= next) := by
  intro calls outside
  obtain ⟨made, hmade, hfits⟩ := hfirst calls outside
  rcases hrun : first runner (calls, outside) with ⟨⟨answer, middle⟩, log, reached⟩
  rw [hrun] at hmade hfits
  obtain rfl : log = calls ++ made := hmade
  obtain ⟨more, hmore, hlater⟩ := hnext made middle hfits answer (calls ++ made) reached
  have hbind : (first >>= next) runner (calls, outside) =
      next answer middle (calls ++ made, reached) := by
    change (fun result => next result.1.1 result.1.2 result.2) (first runner (calls, outside)) = _
    rw [hrun]
  rw [hbind]
  exact ⟨made ++ more, hmore.trans (List.append_assoc _ _ _), hlater⟩

theorem makes_get {next : Runner lib → Action (List Call × σ) lib α}
    (h : Makes runner R (next runner)) : Makes runner R (get >>= next) :=
  h

theorem makes_modify {change : Runner lib → Runner lib} (h : R [] (change runner)) :
    Makes runner R (modify change : Action (List Call × σ) lib PUnit) :=
  fun calls _ => ⟨[], (List.append_nil calls).symm, h⟩

/-- A call that is written down. -/
theorem makes_note {call : Call} (h : R [call] runner) (action : StateM σ α) :
    Makes runner R (liftM (Toolchain.note call action) : Action (List Call × σ) lib α) :=
  fun _ _ => ⟨[call], rfl, h⟩

/-- A call whose answer is remembered. -/
theorem makes_remember {call : Call} {change : α → Runner lib → Runner lib}
    (h : ∀ answer, R [call] (change answer runner)) (action : StateM σ α) :
    Makes runner R (do
      let answer ← (liftM (Toolchain.note call action) : Action (List Call × σ) lib α)
      modify (change answer)
      return answer) := by
  refine makes_bind (makes_note (R := fun made middle => made = [call] ∧ middle = runner)
    ⟨rfl, rfl⟩ action) ?_
  rintro _ _ ⟨rfl, rfl⟩ answer
  refine makes_bind (makes_modify (R := fun made after => made = [] ∧ after = change answer _)
    ⟨rfl, rfl⟩) ?_
  rintro _ _ ⟨rfl, rfl⟩ _
  exact makes_pure (h answer) answer

end Rules

variable (tools : Toolchain σ lib)

/-- Whether a directory is there is asked without a call. -/
theorem makes_searchOverride {runner : Runner lib} {R : List Call → Runner lib → Prop}
    (h : R [] runner) (config : RunConfiguration) :
    Makes runner R (liftM (searchOverride tools.logged config) :
      Action (List Call × σ) lib (Option Path × List String)) := by
  intro calls outside
  refine ⟨[], ?_, h⟩
  change (searchOverride tools.logged config (calls, outside)).2.1 = _
  rw [List.append_nil]
  cases hpath : config.nodePath with
  | none =>
    rw [searchOverride, hpath]
    rfl
  | some nodePath =>
    rcases hask : tools.pathExists nodePath outside with ⟨found, after⟩
    have hlogged : tools.logged.pathExists nodePath (calls, outside) = (found, calls, after) := by
      change Toolchain.silently (tools.pathExists nodePath) (calls, outside) = _
      rw [Toolchain.silently, Toolchain.focus, hask]
    simp only [searchOverride, hpath, bind, StateT.bind, hlogged]
    cases found <;> rfl

/-! ## Loads and global directories -/

/-- The loads and the questions for global directories among the calls are new
to the memory, and it holds their answers afterwards. -/
structure Books (runner : Runner lib) (made : List Call) (after : Runner lib) : Prop where
  libraries : after.libraries.keys = (loadsOf made).reverse ++ runner.libraries.keys
  globalRoots : after.globalRoots.map Prod.fst =
    (managersOf made).reverse ++ runner.globalRoots.map Prod.fst
  libraries_nodup : runner.libraries.keys.Nodup → after.libraries.keys.Nodup
  globalRoots_nodup : (runner.globalRoots.map Prod.fst).Nodup →
    (after.globalRoots.map Prod.fst).Nodup

namespace Books

variable {runner middle after : Runner lib} {made more : List Call}

/-- Nothing is loaded and no manager is asked. -/
theorem of_same (hlibraries : after.libraries = runner.libraries)
    (hglobalRoots : after.globalRoots = runner.globalRoots) (hloads : loadsOf made = [])
    (hmanagers : managersOf made = []) : Books runner made after where
  libraries := by rw [hlibraries, hloads, List.reverse_nil, List.nil_append]
  globalRoots := by rw [hglobalRoots, hmanagers, List.reverse_nil, List.nil_append]
  libraries_nodup := by rw [hlibraries]; exact id
  globalRoots_nodup := by rw [hglobalRoots]; exact id

theorem refl (runner : Runner lib) : Books runner [] runner :=
  of_same rfl rfl rfl rfl

theorem append (h : Books runner made middle) (h' : Books middle more after) :
    Books runner (made ++ more) after where
  libraries := by
    rw [h'.libraries, h.libraries, loadsOf, loadsOf, loadsOf, List.filterMap_append,
      List.reverse_append, List.append_assoc]
  globalRoots := by
    rw [h'.globalRoots, h.globalRoots, managersOf, managersOf, managersOf, List.filterMap_append,
      List.reverse_append, List.append_assoc]
  libraries_nodup := h'.libraries_nodup ∘ h.libraries_nodup
  globalRoots_nodup := h'.globalRoots_nodup ∘ h.globalRoots_nodup

end Books

/-- A package manager is asked only if it is new. -/
theorem globalRoot_books (runner : Runner lib) (manager : PackageManager) :
    Makes runner (Books runner) (globalRoot tools.logged manager) := by
  refine makes_get ?_
  split
  · exact makes_pure (Books.refl runner) _
  · rename_i hlookup
    refine makes_remember (fun root => ⟨rfl, rfl, id, fun hnodup => ?_⟩) (tools.globalRoot manager)
    exact List.nodup_cons.mpr ⟨notMem_keys_of_lookup hlookup, hnodup⟩

/-- Calls without a search among them. -/
def Quiet (runner : Runner lib) (made : List Call) (after : Runner lib) : Prop :=
  Books runner made after ∧ ¬ Resolves made

theorem Quiet.refl (runner : Runner lib) : Quiet runner [] runner :=
  ⟨Books.refl runner, by simp [Resolves]⟩

theorem Quiet.append {runner middle after : Runner lib} {made more : List Call}
    (h : Quiet runner made middle) (h' : Quiet middle more after) :
    Quiet runner (made ++ more) after :=
  ⟨h.1.append h'.1, by simpa [resolves_append] using ⟨h.2, h'.2⟩⟩

/-- A library is loaded only if it is new, and without looking for it
again. -/
theorem loadLibrary_makes (runner : Runner lib) (path : Path) :
    Makes runner (Quiet runner) (loadLibrary tools.logged path) := by
  refine makes_get ?_
  split
  · exact makes_pure (Quiet.refl runner) _
  · rename_i hget
    have hkeys (loaded : Except LoadError lib) := Path.Map.keys_insert hget loaded
    refine makes_remember (fun loaded => ⟨⟨hkeys loaded, rfl, fun hnodup => ?_, id⟩, ?_⟩)
      (tools.load path)
    · exact hkeys loaded ▸ List.nodup_cons.mpr ⟨notMem_keys_of_lookup hget, hnodup⟩
    · simp [Resolves, Call.isResolve]

/-! ## The parts of a run -/

/-- The search looks for the module. -/
theorem resolveLibrary_makes (runner : Runner lib) (file : Path) (config : RunConfiguration) :
    Makes runner (fun made after => Books runner made after ∧ Resolves made)
      (resolveLibrary tools.logged file config) := by
  refine makes_bind (makes_searchOverride tools (Books.refl runner) config) ?_
  intro made middle hmade searched
  refine makes_bind (makes_note (R := fun made after => Books middle made after ∧ Resolves made)
    ⟨Books.of_same rfl rfl rfl rfl, by simp [Resolves, Call.isResolve]⟩ _) ?_
  rintro more _ ⟨hmore, hresolves⟩ found
  have hbooks := hmade.append hmore
  cases found with
  | some library => exact makes_pure (by simpa [resolves_append, hresolves] using hbooks) _
  | none =>
    refine makes_bind (globalRoot_books tools _ config.packageManager) ?_
    intro asked located hasked root
    cases root with
    | none =>
      exact makes_pure (by simpa [resolves_append, hresolves] using hbooks.append hasked) _
    | some root =>
      refine makes_bind (makes_note (R := Books located) (Books.of_same rfl rfl rfl rfl) _) ?_
      intro last _ hlast _
      have hall := (hbooks.append hasked).append hlast
      exact makes_pure (by simpa [resolves_append, hresolves] using hall) _

/-- The search looks for the module exactly if the file is not remembered. -/
theorem libraryPath_makes (runner : Runner lib) (file : Path) (config : RunConfiguration) :
    Makes runner (fun made after => Books runner made after ∧
        (Resolves made ↔ file.components ∉ runner.resolutions.keys))
      (libraryPath tools.logged file config) := by
  intro calls outside
  rcases hget : runner.resolutions.get file.components with ⟨_ | found, resolutions⟩
  · have hnew : file.components ∉ runner.resolutions.keys := by
      rw [← Recency.isSome_get_iff, hget]
      simp
    obtain ⟨made, hmade, hbooks, hresolves⟩ :=
      resolveLibrary_makes tools runner file config calls outside
    rw [libraryPath_of_new hget]
    refine ⟨made, hmade, ?_, iff_of_true hresolves hnew⟩
    exact ⟨hbooks.libraries, hbooks.globalRoots, hbooks.libraries_nodup, hbooks.globalRoots_nodup⟩
  · have hheld : file.components ∈ runner.resolutions.keys := by
      rw [← Recency.isSome_get_iff, hget]
      rfl
    rw [libraryPath_of_held hget]
    exact ⟨[], (List.append_nil calls).symm, Books.of_same rfl rfl rfl rfl,
      by simp [Resolves, hheld]⟩

/-- After the search nothing is looked for. -/
theorem finish_makes (runner : Runner lib) (file : Path) (text : Option String)
    (config : RunConfiguration) (searched : Option Path × List String) :
    Makes runner (Quiet runner) (finish tools.logged file text config searched) := by
  unfold finish
  split
  · exact makes_pure (Quiet.refl runner) _
  · refine makes_bind (loadLibrary_makes tools runner _) ?_
    intro made middle hmade loaded
    cases loaded with
    | error error => exact makes_pure (by simpa using hmade) _
    | ok library =>
      refine makes_bind (makes_note (R := Quiet middle)
        ⟨Books.of_same rfl rfl rfl rfl, by simp [Resolves, Call.isResolve]⟩ _) ?_
      intro more _ hmore outcome
      cases outcome with
      | error error => exact makes_pure (by simpa using hmade.append hmore) _
      | ok outcome => exact makes_pure (by simpa using hmade.append hmore) _

/-- A run looks for the module exactly if its file is neither skipped nor
remembered. -/
theorem run_makes (runner : Runner lib) (job : Job) :
    Makes runner (fun made after => Books runner made after ∧
        (Resolves made ↔ job.config.skips job.file = false ∧
          job.file.components ∉ runner.resolutions.keys))
      (run tools.logged job.file job.text job.config) := by
  rw [run_eq]
  split
  · rename_i hskips
    exact makes_pure ⟨Books.refl runner, by simp [Resolves, hskips]⟩ _
  · rename_i hskips
    refine makes_bind (libraryPath_makes tools runner job.file job.config) ?_
    rintro made middle ⟨hmade, hresolves⟩ searched
    refine makes_weaken (finish_makes tools middle job.file job.text job.config searched) ?_
    rintro more after ⟨hmore, hquiet⟩
    refine ⟨hmade.append hmore, ?_⟩
    rw [resolves_append, hresolves]
    simp [hquiet, hskips]

/-! ## Many runs -/

/-- What can be done with a runner. -/
inductive Step where
  | run (job : Job)
  | clear

/-- The runner, the calls since its memory was last emptied, and the outside
after a step. -/
def advance (step : Step) (state : Runner lib × List Call × σ) : Runner lib × List Call × σ :=
  match step with
  | .run job => perform tools.logged job state
  | .clear => (state.1.clear, [], state.2.2)

/-- The runner, the calls and the outside after steps. -/
def advanceAll (steps : List Step) (state : Runner lib × List Call × σ) :
    Runner lib × List Call × σ :=
  steps.foldl (fun state step => advance tools step state) state

/-- The runs since the memory was last emptied. -/
def sinceClear (steps : List Step) : List Job :=
  steps.foldl (fun jobs step => match step with
    | .run job => jobs ++ [job]
    | .clear => []) []

/-- What holds of the memory and of the calls since it was last emptied. -/
structure Accounted (state : Runner lib × List Call × σ) (jobs : List Job) : Prop where
  remembers : state.1.Remembers (usesOf jobs)
  books : Books empty state.2.1 state.1

/-- A run is accounted for by the files that are remembered and by the new
keys of its calls. -/
theorem accounted_run {state : Runner lib × List Call × σ} {jobs : List Job}
    (h : Accounted state jobs) (job : Job) :
    Accounted (advance tools (.run job) state) (jobs ++ [job]) := by
  obtain ⟨made, hmade, hbooks, _⟩ := run_makes tools state.1 job state.2.1 state.2.2
  have hlog : (advance tools (.run job) state).2.1 = state.2.1 ++ made := hmade
  refine ⟨?_, ?_⟩
  · rw [usesOf_concat]
    exact remembers_perform tools.logged job h.remembers
  · rw [hlog]
    exact h.books.append hbooks

/-- An emptied memory is as good as a new one. -/
theorem accounted_clear {state : Runner lib × List Call × σ} {jobs : List Job}
    (h : Accounted state jobs) : Accounted (advance tools .clear state) [] where
  remembers := ⟨h.remembers.capacity, rfl⟩
  books := Books.of_same rfl rfl rfl rfl

theorem accounted_advanceAll (steps : List Step) (outside : σ) :
    Accounted (advanceAll tools steps (empty, [], outside)) (sinceClear steps) := by
  induction steps using List.reverseRecOn with
  | nil => exact ⟨remembers_empty, Books.refl empty⟩
  | append_singleton steps step ih =>
    rw [advanceAll, List.foldl_concat, sinceClear, List.foldl_concat]
    cases step with
    | run job => exact accounted_run tools ih job
    | clear => exact accounted_clear tools ih

/-- What the memory of a runner holds and what it spares, after any runs and
with the memory emptied at any time.  Since it was last emptied, it holds the
hundred files that were run last, skipped runs left out; a run looks for the
module exactly if it is not skipped and its file is not one of them; no library
is loaded twice and no package manager is asked twice, whatever they answered;
and a skipped run leaves the memory as it is. -/
theorem cache_accounting (steps : List Step) (outside : σ) :
    let state := advanceAll tools steps (empty, [], outside)
    let uses := usesOf (sinceClear steps)
    let recent := (Recency.latest uses).take 100
    (state.1.resolutions.keys = recent ∧ recent.length = min 100 uses.dedup.length) ∧
    (∀ job, ∃ made, (advance tools (.run job) state).2.1 = state.2.1 ++ made ∧
      (Resolves made ↔ job.config.skips job.file = false ∧ job.file.components ∉ recent)) ∧
    ((loadsOf state.2.1).Nodup ∧ (managersOf state.2.1).Nodup) ∧
    ∀ job, job.config.skips job.file = true → (advance tools (.run job) state).1 = state.1 := by
  intro state uses recent
  have haccounted := accounted_advanceAll tools steps outside
  have hkeys : state.1.resolutions.keys = recent := haccounted.remembers.keys
  refine ⟨⟨hkeys, ?_⟩, ?_, ⟨?_, ?_⟩, ?_⟩
  · rw [List.length_take, Recency.length_latest]
  · intro job
    obtain ⟨made, hmade, _, hresolves⟩ := run_makes tools state.1 job state.2.1 state.2.2
    exact ⟨made, hmade, hkeys ▸ hresolves⟩
  · have hnodup := haccounted.books.libraries_nodup List.nodup_nil
    rw [haccounted.books.libraries] at hnodup
    exact List.nodup_reverse.mp (List.nodup_append.mp hnodup).1
  · have hnodup := haccounted.books.globalRoots_nodup List.nodup_nil
    rw [haccounted.books.globalRoots] at hnodup
    exact List.nodup_reverse.mp (List.nodup_append.mp hnodup).1
  · intro job hskips
    simp only [advance, perform, run_eq, hskips, if_true]
    rfl

/-- An outside in which every file has an analyzer that cannot be loaded. -/
def broken : Toolchain Unit Unit where
  resolve _ _ _ := return some ⟨"/lib"⟩
  globalRoot _ := return none
  load path := return .error (.packageNotFound path)
  lint _ _ := return .ok {}
  pathExists _ := return false

/-- The memory is emptied between two files, and the second one is run once
more under another spelling of its path: one search, and one load that fails.
A script is skipped. -/
theorem cache_accounting_broken :
    let steps : List Step := [.run ⟨⟨"/a.ts"⟩, none, {}⟩, .clear, .run ⟨⟨"/b.ts"⟩, none, {}⟩,
      .run ⟨⟨"//b.ts"⟩, none, {}⟩]
    let state := advanceAll broken steps (empty, [], ())
    let script : Job := ⟨⟨"/c.js"⟩, none, {}⟩
    state.1.resolutions.keys = [[.root, .name "b.ts"]] ∧
      state.2.1 = [.resolve "eslint" none ⟨"/"⟩, .load ⟨"/lib"⟩] ∧
      (∃ made, (advance broken (.run ⟨⟨"/a.ts"⟩, none, {}⟩) state).2.1 = state.2.1 ++ made ∧
        Resolves made) ∧
      script.config.skips script.file = true ∧
      (advance broken (.run script) state).1 = state.1 := by
  intro steps state script
  have hskips : script.config.skips script.file = true := by decide +kernel
  have hrecent : (Recency.latest (usesOf (sinceClear steps))).take 100 =
      [[.root, .name "b.ts"]] := by
    decide +kernel
  obtain ⟨⟨hkeys, _⟩, hresolves, _, hskipped⟩ := cache_accounting broken steps ()
  rw [hrecent] at hkeys hresolves
  obtain ⟨made, hmade, hiff⟩ := hresolves ⟨⟨"/a.ts"⟩, none, {}⟩
  exact ⟨hkeys, by decide +kernel, ⟨made, hmade, hiff.mpr (by decide +kernel)⟩, hskips,
    hskipped script hskips⟩

end Runner

end LintLayer
