import MetricScript.Run.Concurrent

/-! # How jobs end

A job that waits for another one goes on when that one has ended: the polls of the two add up. -/

namespace MetricScript

/-- What comes of polling a job that goes on with the value of another one. -/
def Poll.andThen {α β : Type} (setting : Setting) (f : α → Job β) : Poll α → Poll β
  | .ready (.ok a) scene => (f a).poll setting scene
  | .ready (.error stop) scene => .ready (.error stop) scene
  | .pending rest scene => .pending (rest.bind f) scene

/-- The scene that a poll leaves. -/
def Poll.scene {α : Type} : Poll α → Scene
  | .ready _ scene => scene
  | .pending _ scene => scene

theorem Poll.left_scene (p : Poll Value) : p.left.2 = p.scene := by
  rcases p with ⟨(f | message) | value, scene⟩ | ⟨rest, scene⟩ <;> rfl

namespace Job

variable {α β : Type} {setting : Setting}

theorem poll_bind {α : Type} (setting : Setting) (job : Job α) (f : α → Job β) (scene : Scene) :
    (job.bind f).poll setting scene = (job.poll setting scene).andThen setting f := by
  match job with
  | .ended (.ok a) => rfl
  | .ended (.error stop) => rfl
  | .doing x next =>
      simp only [bind, poll]
      rcases x setting scene.state with ⟨stop | b, s'⟩
      · rfl
      · exact poll_bind setting (next b) f _
  | .entering entity property next => exact poll_bind setting (next _) f _
  | .waiting ticket rest =>
      simp only [bind, poll]
      split
      · exact poll_bind setting rest f scene
      · rfl
  | .leaving ticket rest => exact poll_bind setting rest f _
  | .resting 0 rest => exact poll_bind setting rest f scene
  | .resting (polls + 1) rest => rfl
  | .attempting body next =>
      simp only [bind, poll]
      rcases body.poll setting scene with ⟨(f' | message) | value, scene'⟩ | ⟨rest, scene'⟩
      · exact poll_bind setting (next (.error f')) f scene'
      · rfl
      · exact poll_bind setting (next (.ok value)) f scene'
      · rfl
  | .joined children next =>
      simp only [bind, poll]
      rcases pollAll setting children scene with ⟨stop | jobs, scene'⟩
      · rfl
      · dsimp only
        rcases jobs.mapM result? with _ | results
        · rfl
        · exact poll_bind setting (next results) f scene'
  | .contained body rest =>
      simp only [bind, poll]
      rcases body.poll setting scene with ⟨r, scene'⟩ | ⟨left, scene'⟩
      · exact poll_bind setting rest f _
      · rfl
termination_by structural job

/-! ## Polls add up -/

section Outcomes

variable {job rest : Job α} {scene scene' : Scene} {r : Except Stop α}

theorem outcome?_of_ready (h : job.poll setting scene = .ready r scene') (polls : Nat) :
    job.outcome? setting polls scene = some (r, scene') := by
  cases polls <;> simp only [outcome?, h]

theorem outcome?_of_pending (h : job.poll setting scene = .pending rest scene') (polls : Nat) :
    job.outcome? setting (polls + 1) scene = rest.outcome? setting polls scene' := by
  simp only [outcome?, h]

theorem outcome?_zero_of_pending (h : job.poll setting scene = .pending rest scene') :
    job.outcome? setting 0 scene = none := by
  simp only [outcome?, h]

theorem outcome?_congr {job' : Job α} (h : job.poll setting scene = job'.poll setting scene')
    (polls : Nat) : job.outcome? setting polls scene = job'.outcome? setting polls scene' := by
  cases polls <;> simp only [outcome?, h]

theorem outcome?_mono {polls more : Nat} {o : Except Stop α × Scene}
    (h : job.outcome? setting polls scene = some o) (hle : polls ≤ more) :
    job.outcome? setting more scene = some o := by
  induction polls generalizing job scene more with
  | zero =>
      cases hpoll : job.poll setting scene with
      | ready r scene' => rwa [outcome?_of_ready hpoll] at h ⊢
      | pending rest scene' =>
          rw [outcome?_zero_of_pending hpoll] at h
          cases h
  | succ polls ih =>
      cases hpoll : job.poll setting scene with
      | ready r scene' => rwa [outcome?_of_ready hpoll] at h ⊢
      | pending rest scene' =>
          obtain ⟨more, rfl⟩ := Nat.exists_eq_add_of_lt hle
          rw [outcome?_of_pending hpoll] at h ⊢
          exact ih h (Nat.le_add_right polls more)

end Outcomes

/-- A job that stands around another one goes on when that one has ended. -/
def GoesOn (setting : Setting) (around : Job α → Job β)
    (next : Except Stop α → Scene → Job β × Scene) : Prop :=
  ∀ job scene, (around job).poll setting scene =
    match job.poll setting scene with
    | .ready r scene => (next r scene).1.poll setting (next r scene).2
    | .pending rest scene => .pending (around rest) scene

theorem GoesOn.outcome? {around : Job α → Job β} {next : Except Stop α → Scene → Job β × Scene}
    (h : GoesOn setting around next) {job : Job α} {polls more : Nat} {scene scene' : Scene}
    {r : Except Stop α} {o : Except Stop β × Scene}
    (hjob : job.outcome? setting polls scene = some (r, scene'))
    (hnext : (next r scene').1.outcome? setting more (next r scene').2 = some o) :
    (around job).outcome? setting (polls + more) scene = some o := by
  induction polls generalizing job scene with
  | zero =>
      cases hpoll : job.poll setting scene with
      | ready r₁ scene₁ =>
          rw [outcome?_of_ready hpoll] at hjob
          cases hjob
          have haround := h job scene
          rw [hpoll] at haround
          rwa [Nat.zero_add, outcome?_congr haround]
      | pending rest scene₁ =>
          rw [outcome?_zero_of_pending hpoll] at hjob
          cases hjob
  | succ polls ih =>
      have haround := h job scene
      cases hpoll : job.poll setting scene with
      | ready r₁ scene₁ =>
          rw [outcome?_of_ready hpoll] at hjob
          cases hjob
          rw [hpoll] at haround
          rw [← outcome?_congr haround] at hnext
          exact outcome?_mono hnext (Nat.le_add_left more _)
      | pending rest scene₁ =>
          rw [hpoll] at haround
          rw [outcome?_of_pending hpoll] at hjob
          rw [Nat.add_right_comm, outcome?_of_pending haround]
          exact ih hjob

theorem goesOn_bind (f : α → Job β) :
    GoesOn setting (fun job => job.bind f) fun r scene =>
      match r with
      | .ok a => (f a, scene)
      | .error stop => (.ended (.error stop), scene) := by
  intro job scene
  rw [poll_bind]
  rcases job.poll setting scene with ⟨stop | a, scene'⟩ | ⟨rest, scene'⟩ <;> rfl

theorem goesOn_attempting (next : Except Failure Value → Job β) :
    GoesOn setting (fun body => .attempting body next) fun r scene =>
      match r with
      | .ok value => (next (.ok value), scene)
      | .error (.failed f) => (next (.error f), scene)
      | .error (.crashed message) => (.ended (.error (.crashed message)), scene) := by
  intro body scene
  simp only [poll]
  rcases body.poll setting scene with ⟨(f | message) | value, scene'⟩ | ⟨rest, scene'⟩ <;> rfl

theorem goesOn_contained (rest : Job β) :
    GoesOn setting (fun body => .contained body rest) fun r scene =>
      (rest, scene.settled setting r) := by
  intro body scene
  simp only [poll]
  rcases body.poll setting scene with ⟨r, scene'⟩ | ⟨left, scene'⟩ <;> rfl

/-! ## What is on record -/

mutual

/-- What was taken once stays on record. -/
theorem handles_subset_poll {α : Type} (setting : Setting) (job : Job α) (scene : Scene) :
    scene.handles ⊆ (job.poll setting scene).scene.handles := by
  match job with
  | .ended r => exact List.Subset.refl _
  | .doing x next =>
      simp only [poll]
      rcases x setting scene.state with ⟨stop | b, s'⟩
      · exact List.Subset.refl _
      · exact handles_subset_poll setting (next b) { scene with state := s' }
  | .entering entity property next =>
      have hentered : scene.handles ⊆ (scene.entered entity property).handles :=
        List.subset_append_left _ _
      exact List.Subset.trans hentered (handles_subset_poll setting (next _) _)
  | .waiting ticket rest =>
      simp only [poll]
      split
      · exact handles_subset_poll setting rest scene
      · exact List.Subset.refl _
  | .leaving ticket rest => exact handles_subset_poll setting rest (scene.left ticket)
  | .resting 0 rest => exact handles_subset_poll setting rest scene
  | .resting (polls + 1) rest => exact List.Subset.refl _
  | .attempting body next =>
      have hbody := handles_subset_poll setting body scene
      simp only [poll]
      rcases hpoll : body.poll setting scene with
          ⟨(f | message) | value, scene'⟩ | ⟨rest, scene'⟩ <;> rw [hpoll] at hbody
      · exact List.Subset.trans hbody (handles_subset_poll setting (next (.error f)) scene')
      · exact hbody
      · exact List.Subset.trans hbody (handles_subset_poll setting (next (.ok value)) scene')
      · exact hbody
  | .joined children next =>
      have hchildren := handles_subset_pollAll setting children scene
      simp only [poll]
      rcases hpoll : pollAll setting children scene with ⟨stop | jobs, scene'⟩ <;>
        rw [hpoll] at hchildren
      · exact hchildren
      · dsimp only
        rcases jobs.mapM result? with _ | results
        · exact hchildren
        · exact List.Subset.trans hchildren (handles_subset_poll setting (next results) scene')
  | .contained body rest =>
      have hbody := handles_subset_poll setting body scene
      simp only [poll]
      rcases hpoll : body.poll setting scene with ⟨r, scene'⟩ | ⟨left, scene'⟩ <;>
        rw [hpoll] at hbody
      · exact List.Subset.trans hbody (handles_subset_poll setting rest (scene'.settled setting r))
      · exact hbody
termination_by structural job

theorem handles_subset_pollAll (setting : Setting) (jobs : List (Job Value)) (scene : Scene) :
    scene.handles ⊆ (pollAll setting jobs scene).2.handles := by
  match jobs with
  | [] => exact List.Subset.refl _
  | job :: rest =>
      have hfirst := handles_subset_poll setting job scene
      rw [← Poll.left_scene] at hfirst
      simp only [pollAll]
      rcases hleft : (job.poll setting scene).left with ⟨stop | job', scene'⟩ <;>
        rw [hleft] at hfirst
      · exact hfirst
      · have hrest := handles_subset_pollAll setting rest scene'
        dsimp only
        rcases hpolls : pollAll setting rest scene' with ⟨stop | rest', scene''⟩ <;>
          rw [hpolls] at hrest <;> exact List.Subset.trans hfirst hrest
termination_by structural jobs

end

end Job

/-- Whatever holds of the job of every argument holds of all jobs of a call. -/
theorem Expr.forall_mem_jobs {arguments : List Expr} {P : Job Value → Prop}
    (h : ∀ e ∈ arguments, P e.job) : ∀ job ∈ Expr.jobs arguments, P job := by
  induction arguments with
  | nil => exact fun _ hmem => absurd hmem List.not_mem_nil
  | cons e rest ih =>
      obtain ⟨he, hrest⟩ := List.forall_mem_cons.mp h
      exact List.forall_mem_cons.mpr ⟨he, ih hrest⟩

end MetricScript
