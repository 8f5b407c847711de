import MetricScript.Proofs.Job.Outcome
import MetricScript.Proofs.Trace.Basic

/-! # Every run comes to its end

A job has a bounded number of steps to do, and a call to the source is answered after a number of
polls. So a poll leaves less to do, unless all that is left waits for its turn. That cannot be: the
one who is first in line does not wait. -/

namespace MetricScript

open Run

namespace Job

variable {α β : Type} {setting : Setting}

/-! ## What is left to do -/

mutual

/-- For how many polls a job still waits for the source, in all its parts that wait for it. -/
def sleep {α : Type} : Job α → Nat
  | .resting polls _ => polls
  | .attempting body _ => body.sleep
  | .joined children _ => sleepAll children
  | .contained body _ => body.sleep
  | _ => 0
termination_by structural job => job

def sleepAll : List (Job Value) → Nat
  | [] => 0
  | job :: rest => job.sleep + sleepAll rest
termination_by structural jobs => jobs

end

mutual

/-- A job that is in line with these tickets and has at most so many steps to do. It leaves the line
before it fails and before it gets in line again. -/
def Orderly {α : Type} : Job α → (steps : Nat) → (tickets : List Ticket) → Prop
  | .ended _, _, tickets => tickets = []
  | .doing x next, steps, tickets =>
    (tickets ≠ [] → ∀ setting s f, (x setting s).1 ≠ .error (.failed f)) ∧
      ∃ k < steps, ∀ b, (next b).Orderly k tickets
  | .entering _ _ next, steps, tickets => tickets = [] ∧ ∃ k < steps, ∀ t, (next t).Orderly k [t]
  | .waiting ticket rest, steps, tickets =>
    tickets = [ticket] ∧ ∃ k < steps, rest.Orderly k [ticket]
  | .leaving ticket rest, steps, tickets => tickets = [ticket] ∧ ∃ k < steps, rest.Orderly k []
  | .resting _ rest, steps, tickets => ∃ k < steps, rest.Orderly k tickets
  | .attempting body next, steps, tickets =>
    ∃ m k, m + k < steps ∧ body.Orderly m tickets ∧ ∀ r, (next r).Orderly k []
  | .joined children next, steps, tickets =>
    ∃ m k, m + k < steps ∧ OrderlyAll children m tickets ∧ ∀ results, (next results).Orderly k []
  | .contained _ _, _, _ => False
termination_by structural job => job

/-- Jobs that are in line with these tickets and have at most so many steps to do together. -/
def OrderlyAll : List (Job Value) → (steps : Nat) → (tickets : List Ticket) → Prop
  | [], _, tickets => tickets = []
  | job :: rest, steps, tickets =>
    ∃ m k first others, steps = m + k ∧ tickets = first ++ others ∧ job.Orderly m first ∧
      OrderlyAll rest k others
termination_by structural jobs => jobs

end

theorem Orderly.mono {job : Job α} {steps more : Nat} {tickets : List Ticket}
    (h : job.Orderly steps tickets) (hle : steps ≤ more) : job.Orderly more tickets := by
  match job with
  | .ended r => exact h
  | .doing x next =>
      obtain ⟨hfail, k, hk, h⟩ := h
      exact ⟨hfail, k, Nat.lt_of_lt_of_le hk hle, h⟩
  | .entering entity property next =>
      obtain ⟨htickets, k, hk, h⟩ := h
      exact ⟨htickets, k, Nat.lt_of_lt_of_le hk hle, h⟩
  | .waiting ticket rest =>
      obtain ⟨htickets, k, hk, h⟩ := h
      exact ⟨htickets, k, Nat.lt_of_lt_of_le hk hle, h⟩
  | .leaving ticket rest =>
      obtain ⟨htickets, k, hk, h⟩ := h
      exact ⟨htickets, k, Nat.lt_of_lt_of_le hk hle, h⟩
  | .resting polls rest =>
      obtain ⟨k, hk, h⟩ := h
      exact ⟨k, Nat.lt_of_lt_of_le hk hle, h⟩
  | .attempting body next =>
      rw [Orderly] at h ⊢
      obtain ⟨m, k, hk, h⟩ := h
      exact ⟨m, k, Nat.lt_of_lt_of_le hk hle, h⟩
  | .joined children next =>
      rw [Orderly] at h ⊢
      obtain ⟨m, k, hk, h⟩ := h
      exact ⟨m, k, Nat.lt_of_lt_of_le hk hle, h⟩
  | .contained body rest => exact absurd h id

theorem Orderly.ended_or_pos {job : Job α} {steps : Nat} {tickets : List Ticket}
    (h : job.Orderly steps tickets) : (∃ r, job = .ended r) ∨ 0 < steps := by
  match job with
  | .ended r => exact .inl ⟨r, rfl⟩
  | .doing x next =>
      obtain ⟨-, k, hk, -⟩ := h
      exact .inr (Nat.zero_lt_of_lt hk)
  | .entering entity property next =>
      obtain ⟨-, k, hk, -⟩ := h
      exact .inr (Nat.zero_lt_of_lt hk)
  | .waiting ticket rest =>
      obtain ⟨-, k, hk, -⟩ := h
      exact .inr (Nat.zero_lt_of_lt hk)
  | .leaving ticket rest =>
      obtain ⟨-, k, hk, -⟩ := h
      exact .inr (Nat.zero_lt_of_lt hk)
  | .resting polls rest =>
      obtain ⟨k, hk, -⟩ := h
      exact .inr (Nat.zero_lt_of_lt hk)
  | .attempting body next =>
      rw [Orderly] at h
      obtain ⟨m, k, hk, -⟩ := h
      exact .inr (Nat.zero_lt_of_lt hk)
  | .joined children next =>
      rw [Orderly] at h
      obtain ⟨m, k, hk, -⟩ := h
      exact .inr (Nat.zero_lt_of_lt hk)
  | .contained body rest => exact absurd h id

theorem OrderlyAll.tickets_eq_nil {jobs : List (Job Value)} {steps : Nat} {tickets : List Ticket}
    {results : List (Except Failure Value)} (h : OrderlyAll jobs steps tickets)
    (hresults : jobs.mapM result? = some results) : tickets = [] := by
  induction jobs generalizing steps tickets results with
  | nil => exact h
  | cons job rest ih =>
      obtain ⟨m, k, first, others, -, rfl, hjob, hrest⟩ := h
      rw [List.mapM_cons] at hresults
      obtain ⟨r, hr, hresults⟩ := Option.bind_eq_some_iff.mp hresults
      obtain ⟨rs, hrs, -⟩ := Option.bind_eq_some_iff.mp hresults
      rw [ih hrest hrs, List.append_nil]
      match job with
      | .ended (.ok value) => exact hjob
      | .ended (.error (.failed f)) => exact hjob

/-! ## Polls of orderly jobs -/

/-- There are fewer steps to do, or fewer polls to sleep in between, or nothing has changed. -/
def LeavesLess (steps sleep steps' sleep' : Nat) (unchanged : Prop) : Prop :=
  steps' < steps ∨ steps' = steps ∧ (sleep' < sleep ∨ sleep' = sleep ∧ unchanged)

theorem LeavesLess.le {steps sleep steps' sleep' : Nat} {unchanged : Prop}
    (h : LeavesLess steps sleep steps' sleep' unchanged) : steps' ≤ steps := by
  rcases h with hlt | ⟨heq, -⟩
  · exact Nat.le_of_lt hlt
  · exact Nat.le_of_eq heq

theorem LeavesLess.imp {steps sleep steps' sleep' : Nat} {p q : Prop}
    (h : LeavesLess steps sleep steps' sleep' p) (hpq : p → q) :
    LeavesLess steps sleep steps' sleep' q :=
  Or.imp_right (And.imp_right (Or.imp_right (And.imp_right hpq))) h

theorem LeavesLess.add {steps sleep steps' sleep' more doze more' doze' : Nat} {p q : Prop}
    (h : LeavesLess steps sleep steps' sleep' p) (h' : LeavesLess more doze more' doze' q) :
    LeavesLess (steps + more) (sleep + doze) (steps' + more') (sleep' + doze') (p ∧ q) := by
  grind [LeavesLess]

theorem LeavesLess.around {steps sleep steps' sleep' k total : Nat} {p : Prop}
    (h : LeavesLess steps sleep steps' sleep' p) (hk : steps + k < total) :
    ∃ total', steps' + k < total' ∧ LeavesLess total sleep total' sleep' p := by
  rcases h with hlt | ⟨rfl, h⟩
  · exact ⟨total - 1, by omega, .inl (by omega)⟩
  · exact ⟨total, hk, .inr ⟨rfl, h⟩⟩

/-- Nothing was done: everyone who is in line with these tickets waits. -/
def Idle (setting : Setting) (scene scene' : Scene) (tickets tickets' : List Ticket) : Prop :=
  scene' = scene ∧ tickets' = tickets ∧ ∀ ticket ∈ tickets, scene.isTurn setting ticket = false

theorem Idle.append {scene scene' scene'' : Scene} {first first' others others' : List Ticket}
    (h : Idle setting scene scene' first first') (h' : Idle setting scene' scene'' others others') :
    Idle setting scene scene'' (first ++ others) (first' ++ others') := by
  obtain ⟨rfl, rfl, hfirst⟩ := h
  obtain ⟨rfl, rfl, hothers⟩ := h'
  exact ⟨rfl, rfl, List.forall_mem_append.mpr ⟨hfirst, hothers⟩⟩

end Job

open Job

/-- What a poll of an orderly job leaves, where others are in line with other tickets. A job that
has ended is in line no more, unless it crashed. -/
def Poll.Orderly {α : Type} (setting : Setting) (p : Poll α) (job : Job α) (scene : Scene)
    (steps : Nat) (tickets others : List Ticket) : Prop :=
  match p with
  | .ready (.error (.crashed _)) _ => True
  | .ready _ scene' => scene'.line.Perm others
  | .pending rest scene' => ∃ steps' tickets', rest.Orderly steps' tickets' ∧
      scene'.line.Perm (tickets' ++ others) ∧
      LeavesLess steps job.sleep steps' rest.sleep
        (rest = job ∧ tickets ≠ [] ∧ Idle setting scene scene' tickets tickets')

section Polls

variable {α : Type} {setting : Setting}

theorem Poll.Orderly.of_lt {p : Poll α} {job later : Job α} {scene scene' : Scene} {steps k : Nat}
    {tickets tickets' others : List Ticket}
    (h : p.Orderly setting later scene' k tickets' others) (hk : k < steps) :
    p.Orderly setting job scene steps tickets others := by
  match p with
  | .ready (.error (.crashed _)) _ => trivial
  | .ready (.error (.failed _)) _ => exact h
  | .ready (.ok _) _ => exact h
  | .pending rest scene'' =>
      obtain ⟨steps', tickets'', hrest, hline, hless⟩ := h
      exact ⟨steps', tickets'', hrest, hline, .inl (Nat.lt_of_le_of_lt hless.le hk)⟩

/-- What is left of an orderly job after a poll, unless it crashed. -/
theorem Poll.Orderly.left {p : Poll Value} {job : Job Value} {scene : Scene} {steps : Nat}
    {tickets others : List Ticket} (hp : job.poll setting scene = p)
    (hjob : job.Orderly steps tickets) (h : p.Orderly setting job scene steps tickets others) :
    match p.left with
    | (.error stop, _) => ∃ message, stop = .crashed message
    | (.ok job', scene') => ∃ steps' tickets', job'.Orderly steps' tickets' ∧
        scene'.line.Perm (tickets' ++ others) ∧
        LeavesLess steps job.sleep steps' job'.sleep
          (job' = job ∧ (job.result? = none → tickets ≠ []) ∧
            Idle setting scene scene' tickets tickets') := by
  have hended (r : Except Stop Value) (scene' : Scene) (hr : (ended r).result? ≠ none)
      (hready : p = .ready r scene') (hline : scene'.line.Perm others) :
      ∃ steps' tickets', (ended r).Orderly steps' tickets' ∧
        scene'.line.Perm (tickets' ++ others) ∧
        LeavesLess steps job.sleep steps' 0 (ended r = job ∧ (job.result? = none → tickets ≠ []) ∧
          Idle setting scene scene' tickets tickets') := by
    rcases hjob.ended_or_pos with ⟨r', rfl⟩ | hpos
    · obtain rfl : tickets = [] := hjob
      cases hp.trans hready
      exact ⟨steps, [], rfl, hline,
        .inr ⟨rfl, .inr ⟨rfl, rfl, fun hnone => absurd hnone hr, rfl, rfl, nofun⟩⟩⟩
    · exact ⟨0, [], rfl, hline, .inl hpos⟩
  match p with
  | .ready (.error (.crashed message)) _ => exact ⟨message, rfl⟩
  | .ready (.error (.failed f)) scene' => exact hended _ scene' nofun rfl h
  | .ready (.ok value) scene' => exact hended _ scene' nofun rfl h
  | .pending rest scene' =>
      obtain ⟨steps', tickets', hrest, hline, hless⟩ := h
      exact ⟨steps', tickets', hrest, hline,
        hless.imp fun hsame => ⟨hsame.1, fun _ => hsame.2.1, hsame.2.2⟩⟩

end Polls

namespace Job

variable {setting : Setting}

mutual

/-- A poll of an orderly job leaves less to do, unless all that is left waits for its turn. -/
theorem poll_orderly {α : Type} (job : Job α) (scene : Scene) {steps : Nat}
    {tickets others : List Ticket} (h : job.Orderly steps tickets)
    (hline : scene.line.Perm (tickets ++ others)) :
    (job.poll setting scene).Orderly setting job scene steps tickets others := by
  match job with
  | .ended r =>
      obtain rfl : tickets = [] := h
      match r with
      | .error (.crashed _) => trivial
      | .error (.failed _) => exact hline
      | .ok _ => exact hline
  | .doing x next =>
      obtain ⟨hfail, k, hk, h⟩ := h
      simp only [poll]
      rcases hx : x setting scene.state with ⟨(f | message) | b, s'⟩
      · have htickets : tickets = [] := by
          rcases tickets with _ | ⟨t, ts⟩
          · rfl
          · exact absurd (by rw [hx]) (hfail (List.cons_ne_nil t ts) setting scene.state f)
        rw [htickets] at hline
        exact hline
      · trivial
      · exact (poll_orderly (next b) { scene with state := s' } (h b) hline).of_lt hk
  | .entering entity property next =>
      obtain ⟨rfl, k, hk, h⟩ := h
      have hentered : (scene.entered entity property).line.Perm
          ([scene.nextTicket entity property] ++ others) :=
        (hline.append_right _).trans List.perm_append_comm
      exact (poll_orderly (next _) (scene.entered entity property) (h _) hentered).of_lt hk
  | .waiting ticket rest =>
      have hwaiting := h
      obtain ⟨rfl, k, hk, h⟩ := h
      simp only [poll]
      split
      · exact (poll_orderly rest scene h hline).of_lt hk
      · next hturn =>
          exact ⟨steps, [ticket], hwaiting, hline, .inr ⟨rfl, .inr ⟨rfl, rfl, List.cons_ne_nil _ _,
            rfl, rfl, by simpa using hturn⟩⟩⟩
  | .leaving ticket rest =>
      obtain ⟨rfl, k, hk, h⟩ := h
      have hleft : (scene.left ticket).line.Perm ([] ++ others) := by
        have herased := hline.erase ticket
        rwa [List.singleton_append, List.erase_cons_head] at herased
      exact (poll_orderly rest (scene.left ticket) h hleft).of_lt hk
  | .resting 0 rest =>
      obtain ⟨k, hk, h⟩ := h
      exact (poll_orderly rest scene h hline).of_lt hk
  | .resting (polls + 1) rest =>
      exact ⟨steps, tickets, h, hline, .inr ⟨rfl, .inl (Nat.lt_succ_self polls)⟩⟩
  | .attempting body next =>
      rw [Orderly] at h
      obtain ⟨m, k, hk, hbody, hnext⟩ := h
      have hpoll := poll_orderly body scene hbody hline
      simp only [poll]
      rcases hbodyPoll : body.poll setting scene with
          ⟨(f | message) | value, scene'⟩ | ⟨rest, scene'⟩ <;> rw [hbodyPoll] at hpoll
      · have hline' : scene'.line.Perm ([] ++ others) := hpoll
        exact (poll_orderly (next (.error f)) scene' (hnext _) hline').of_lt (by omega)
      · trivial
      · have hline' : scene'.line.Perm ([] ++ others) := hpoll
        exact (poll_orderly (next (.ok value)) scene' (hnext _) hline').of_lt (by omega)
      · obtain ⟨m', tickets', hrest, hline', hless⟩ := hpoll
        obtain ⟨steps', hsteps, hless⟩ := hless.around hk
        refine ⟨steps', tickets', ?_, hline',
          hless.imp (And.imp_left (congrArg (attempting · next)))⟩
        rw [Orderly]
        exact ⟨m', k, hsteps, hrest, hnext⟩
  | .joined children next =>
      rw [Orderly] at h
      obtain ⟨m, k, hk, hchildren, hnext⟩ := h
      have hpolls := pollAll_orderly children scene hchildren hline
      simp only [poll]
      rcases heq : pollAll setting children scene with ⟨stop | jobs, scene'⟩ <;> rw [heq] at hpolls
      · obtain ⟨message, rfl⟩ := hpolls
        trivial
      · obtain ⟨m', tickets', hjobs, hline', hless⟩ := hpolls
        dsimp only
        cases hresults : jobs.mapM result? with
        | some results =>
            rw [hjobs.tickets_eq_nil hresults] at hline'
            have hle := hless.le
            exact (poll_orderly (next results) scene' (hnext _) hline').of_lt (by omega)
        | none =>
            obtain ⟨steps', hsteps, hless⟩ := hless.around hk
            refine ⟨steps', tickets', ?_, hline', hless.imp fun ⟨hsame, hne, hidle⟩ => ?_⟩
            · rw [Orderly]
              exact ⟨m', k, hsteps, hjobs, hnext⟩
            · subst hsame
              exact ⟨rfl, hne hresults, hidle⟩
  | .contained body rest => exact absurd h id
termination_by structural job

theorem pollAll_orderly (jobs : List (Job Value)) (scene : Scene) {steps : Nat}
    {tickets others : List Ticket} (h : OrderlyAll jobs steps tickets)
    (hline : scene.line.Perm (tickets ++ others)) :
    match pollAll setting jobs scene with
    | (.error stop, _) => ∃ message, stop = .crashed message
    | (.ok jobs', scene') => ∃ steps' tickets', OrderlyAll jobs' steps' tickets' ∧
        scene'.line.Perm (tickets' ++ others) ∧
        LeavesLess steps (sleepAll jobs) steps' (sleepAll jobs')
          (jobs' = jobs ∧ (jobs.mapM result? = none → tickets ≠ []) ∧
            Idle setting scene scene' tickets tickets') := by
  match jobs with
  | [] =>
      obtain rfl : tickets = [] := h
      exact ⟨steps, [], rfl, hline, .inr ⟨rfl, .inr ⟨rfl, rfl, nofun, rfl, rfl, nofun⟩⟩⟩
  | job :: rest =>
      rw [OrderlyAll] at h
      obtain ⟨m, k, first, later, rfl, rfl, hjob, hrest⟩ := h
      rw [List.append_assoc] at hline
      have hleft := (poll_orderly job scene hjob hline).left rfl hjob
      simp only [pollAll]
      rcases heq : (job.poll setting scene).left with ⟨stop | job', scene'⟩ <;> rw [heq] at hleft
      · exact hleft
      · obtain ⟨m', first', hjob', hline', hless⟩ := hleft
        have hregrouped : scene'.line.Perm (later ++ (first' ++ others)) :=
          hline'.trans (List.perm_append_comm_assoc first' later others)
        have hpolls := pollAll_orderly rest scene' hrest hregrouped
        dsimp only
        rcases heqs : pollAll setting rest scene' with ⟨stop | rest', scene''⟩ <;>
          rw [heqs] at hpolls
        · exact hpolls
        · obtain ⟨k', later', hrest', hline'', hless'⟩ := hpolls
          refine ⟨m' + k', first' ++ later', ?_, ?_, (hless.add hless').imp ?_⟩
          · rw [OrderlyAll]
            exact ⟨m', k', first', later', rfl, rfl, hjob', hrest'⟩
          · rw [List.append_assoc]
            exact hline''.trans (List.perm_append_comm_assoc later' first' others)
          · rintro ⟨⟨rfl, hfirst, hidle⟩, rfl, hlater, hidle'⟩
            refine ⟨rfl, fun hnone hnil => ?_, hidle.append hidle'⟩
            obtain ⟨hnil, hnil'⟩ := List.append_eq_nil_iff.mp hnil
            cases hr : job'.result? with
            | none => exact hfirst hr hnil
            | some r =>
                cases hrs : rest'.mapM result? with
                | none => exact hlater hrs hnil'
                | some rs =>
                    rw [List.mapM_cons, hr, hrs] at hnone
                    cases hnone
termination_by structural jobs

end

/-! ## Someone goes on -/

theorem orderly_bind {α β : Type} (job : Job α) {f : α → Job β} {steps more : Nat}
    {tickets : List Ticket} (h : job.Orderly steps tickets) (hf : ∀ a, (f a).Orderly more []) :
    (job.bind f).Orderly (steps + more) tickets := by
  match job with
  | .ended (.ok a) =>
      obtain rfl : tickets = [] := h
      exact (hf a).mono (Nat.le_add_left more steps)
  | .ended (.error stop) => exact h
  | .doing x next =>
      obtain ⟨hfail, k, hk, h⟩ := h
      exact ⟨hfail, k + more, Nat.add_lt_add_right hk more, fun b => orderly_bind (next b) (h b) hf⟩
  | .entering entity property next =>
      obtain ⟨htickets, k, hk, h⟩ := h
      exact ⟨htickets, k + more, Nat.add_lt_add_right hk more, fun t => orderly_bind _ (h t) hf⟩
  | .waiting ticket rest =>
      obtain ⟨htickets, k, hk, h⟩ := h
      exact ⟨htickets, k + more, Nat.add_lt_add_right hk more, orderly_bind rest h hf⟩
  | .leaving ticket rest =>
      obtain ⟨htickets, k, hk, h⟩ := h
      exact ⟨htickets, k + more, Nat.add_lt_add_right hk more, orderly_bind rest h hf⟩
  | .resting polls rest =>
      obtain ⟨k, hk, h⟩ := h
      exact ⟨k + more, Nat.add_lt_add_right hk more, orderly_bind rest h hf⟩
  | .attempting body next =>
      rw [Orderly] at h
      rw [bind, Orderly]
      obtain ⟨m, k, hk, hbody, hnext⟩ := h
      exact ⟨m, k + more, by omega, hbody, fun r => orderly_bind (next r) (hnext r) hf⟩
  | .joined children next =>
      rw [Orderly] at h
      rw [bind, Orderly]
      obtain ⟨m, k, hk, hchildren, hnext⟩ := h
      exact ⟨m, k + more, by omega, hchildren, fun rs => orderly_bind (next rs) (hnext rs) hf⟩
  | .contained body rest => exact absurd h id
termination_by structural job

theorem Orderly.bind {α β : Type} {job : Job α} {f : α → Job β} {steps more : Nat}
    (h : job.Orderly steps []) (hf : ∀ a, (f a).Orderly more []) :
    (job >>= f).Orderly (steps + more) [] :=
  orderly_bind job h hf

theorem orderly_pure {α : Type} (a : α) : (pure a : Job α).Orderly 0 [] :=
  rfl

theorem orderly_lift {α : Type} (x : Run α) : (liftM x : Job α).Orderly 1 [] :=
  ⟨fun h => absurd rfl h, 0, Nat.one_pos, fun _ => rfl⟩

theorem Orderly.attempting {α : Type} {body : Job Value} {next : Except Failure Value → Job α}
    {steps more : Nat} (h : body.Orderly steps []) (hnext : ∀ r, (next r).Orderly more []) :
    (Job.attempting body next).Orderly (steps + more + 1) [] := by
  rw [Orderly]
  exact ⟨steps, more, Nat.lt_succ_self _, h, hnext⟩

theorem Orderly.settle {job : Job Value} {steps : Nat} (h : job.Orderly steps []) :
    job.settle.Orderly (steps + 2) [] :=
  h.attempting fun _ => orderly_lift _

theorem orderly_keptOrFetched (entity : Entity) (name : String) (endpoint : Endpoint) :
    (Job.keptOrFetched entity name (Job.ask entity name endpoint)).Orderly 8 [] := by
  refine ⟨rfl, 7, by omega, fun ticket => ⟨rfl, 6, by omega, fun _ _ _ _ => nofun, 5, by omega,
    fun kept => ?_⟩⟩
  cases kept with
  | some series => exact ⟨rfl, 0, by omega, rfl⟩
  | none =>
      refine ⟨fun _ _ _ _ => nofun, 4, by omega, fun polls => ⟨fun _ _ _ _ => nofun, 3, by omega,
        fun answer => ⟨2, by omega, rfl, 1, by omega, ?_⟩⟩⟩
      cases answer with
      | series series => exact ⟨fun h => absurd rfl h, 0, Nat.one_pos, fun _ => rfl⟩
      | error e => exact rfl
      | crash message => exact orderly_lift _

theorem orderly_property (base : Value) (name : String) :
    (Job.property base name).Orderly 9 [] := by
  have hplain : (liftM (Run.property base name) : Job Value).Orderly 9 [] :=
    (orderly_lift _).mono (by omega)
  cases base with
  | entity entity =>
      change (Job.entityProperty entity name).Orderly 9 []
      unfold Job.entityProperty
      cases entity.kind.endpoint? name with
      | none => exact (orderly_lift _).mono (by omega)
      | some endpoint =>
          change Job.Orderly _ (8 + 1) []
          refine (orderly_keptOrFetched entity name endpoint).bind fun result => ?_
          cases result with
          | ok series => exact (orderly_pure _).mono (Nat.zero_le 1)
          | error e => exact orderly_lift _
  | scalar x => exact hplain
  | series t => exact hplain
  | list items => exact hplain

theorem exists_orderly_properties (names : List String) :
    ∃ steps, ∀ base, (Job.properties base names).Orderly steps [] := by
  induction names with
  | nil => exact ⟨0, orderly_pure⟩
  | cons name rest ih =>
      obtain ⟨steps, h⟩ := ih
      exact ⟨9 + steps, fun base => (orderly_property base name).bind h⟩

/-- Jobs each of which is orderly are so together. -/
theorem exists_orderlyAll {jobs : List (Job Value)}
    (h : ∀ job ∈ jobs, ∃ steps, job.Orderly steps []) : ∃ steps, OrderlyAll jobs steps [] := by
  induction jobs with
  | nil => exact ⟨0, rfl⟩
  | cons job rest ih =>
      obtain ⟨⟨m, hjob⟩, hrest⟩ := List.forall_mem_cons.mp h
      obtain ⟨k, hrest⟩ := ih hrest
      refine ⟨m + k, ?_⟩
      rw [OrderlyAll]
      exact ⟨m, k, [], [], rfl, rfl, hjob, hrest⟩

theorem exists_orderly_inTurn {jobs : List (Job Value)}
    (h : ∀ job ∈ jobs, ∃ steps, job.Orderly steps []) :
    ∃ steps, (inTurn jobs).Orderly steps [] := by
  induction jobs with
  | nil => exact ⟨0, orderly_pure _⟩
  | cons job rest ih =>
      obtain ⟨⟨m, hjob⟩, hrest⟩ := List.forall_mem_cons.mp h
      obtain ⟨k, hrest⟩ := ih hrest
      exact ⟨_, hjob.attempting fun result => hrest.bind fun results => orderly_pure _⟩

theorem exists_orderly_allResults {jobs : List (Job Value)}
    (h : ∀ job ∈ jobs, ∃ steps, job.Orderly steps []) :
    ∃ steps, (allResults jobs).Orderly steps [] := by
  obtain ⟨m, hall⟩ := exists_orderlyAll h
  obtain ⟨k, hinTurn⟩ := exists_orderly_inTurn h
  have hjoined : (Job.joined jobs pure).Orderly (m + 1) [] := by
    rw [Orderly]
    exact ⟨m, 0, by omega, hall, orderly_pure⟩
  refine ⟨1 + (m + 1 + k), (orderly_lift setting).bind fun setting => ?_⟩
  split
  · exact hjoined.mono (by omega)
  · exact hinTurn.mono (by omega)

end Job

open Job

theorem Expr.exists_orderly_jobOfItems {items : List Expr}
    (h : ∀ e ∈ items, ∃ steps, e.job.Orderly steps []) :
    ∃ steps, (Expr.jobOfItems items).Orderly steps [] := by
  induction items with
  | nil => exact ⟨0, orderly_pure _⟩
  | cons e rest ih =>
      obtain ⟨⟨m, he⟩, hrest⟩ := List.forall_mem_cons.mp h
      obtain ⟨k, hrest⟩ := ih hrest
      exact ⟨_, he.settle.bind fun value => hrest.bind fun values => orderly_pure _⟩

theorem Expr.exists_orderly_jobOfLinks {rest : List (Operator × Expr)}
    (h : ∀ link ∈ rest, ∃ steps, link.2.job.Orderly steps []) :
    ∃ steps, ∀ left, (Expr.jobOfLinks left rest).Orderly steps [] := by
  induction rest with
  | nil => exact ⟨0, orderly_pure⟩
  | cons link rest ih =>
      obtain ⟨op, e⟩ := link
      obtain ⟨⟨m, he⟩, hrest⟩ := List.forall_mem_cons.mp h
      obtain ⟨k, hrest⟩ := ih hrest
      exact ⟨_, fun left => he.settle.bind fun value => (orderly_lift _).bind fun right =>
        (orderly_lift now).bind fun moment => hrest _⟩

theorem Expr.exists_orderly_job (e : Expr) : ∃ steps, e.job.Orderly steps [] := by
  induction e using Expr.induct with
  | literal l => exact ⟨0, orderly_pure l.value⟩
  | name name => exact ⟨1, orderly_lift (nameValue name)⟩
  | array items ih =>
      obtain ⟨k, hitems⟩ := Expr.exists_orderly_jobOfItems ih
      exact ⟨_, hitems.bind fun values => orderly_pure _⟩
  | call function arguments ih =>
      obtain ⟨k, harguments⟩ := exists_orderly_allResults (Expr.forall_mem_jobs ih)
      exact ⟨_, harguments.bind fun results => (orderly_lift (settleResults results)).bind
        fun values => orderly_lift (callFunction function values)⟩
  | member base names ih =>
      obtain ⟨m, hbase⟩ := ih
      obtain ⟨k, hnames⟩ := exists_orderly_properties names
      exact ⟨_, hbase.bind hnames⟩
  | chain first rest hfirst hrest =>
      by_cases hempty : rest.isEmpty = true
      · simpa only [Expr.job, hempty, if_true] using hfirst
      · simp only [Expr.job, hempty]
        obtain ⟨m, hfirst⟩ := hfirst
        obtain ⟨k, hlinks⟩ := Expr.exists_orderly_jobOfLinks hrest
        refine ⟨m + 2 + (k + 1), hfirst.settle.bind fun left => (hlinks left).bind fun value => ?_⟩
        cases value with
        | none => exact orderly_lift _
        | some v => exact (orderly_pure v).mono (Nat.zero_le 1)
  | not operand ih =>
      obtain ⟨m, hoperand⟩ := ih
      exact ⟨_, hoperand.settle.bind fun value => (orderly_lift now).bind fun moment =>
        orderly_pure _⟩
  | unsupported => exact ⟨1, orderly_lift _⟩

theorem Expr.exists_orderly_jobOfArguments (arguments : List Expr) :
    ∃ steps, (Expr.jobOfArguments arguments).Orderly steps [] := by
  obtain ⟨k, harguments⟩ := exists_orderly_allResults
    (Expr.forall_mem_jobs fun e (_ : e ∈ arguments) => e.exists_orderly_job)
  exact ⟨_, harguments.bind fun results => orderly_lift (settleResults results)⟩

theorem Statement.exists_orderly_job (statement : Statement) :
    ∃ steps, statement.job.Orderly steps [] := by
  cases statement with
  | assignment name value =>
      cases value with
      | none => exact ⟨1, orderly_lift (unbindVariable name)⟩
      | some e =>
          obtain ⟨m, he⟩ := e.exists_orderly_job
          refine ⟨m + 1 + 1, he.attempting fun result => ?_⟩
          cases result <;> exact orderly_lift _
  | plot arguments =>
      by_cases hempty : arguments.isEmpty = true
      · simp only [Statement.job, hempty, if_true]
        exact ⟨1, orderly_lift _⟩
      · simp only [Statement.job, hempty]
        obtain ⟨k, harguments⟩ := Expr.exists_orderly_jobOfArguments arguments
        exact ⟨_, harguments.bind fun values => (orderly_lift (refuseHandles arguments values)).bind
          fun values => orderly_lift (plotValues values)⟩
  | highlight arguments =>
      obtain ⟨k, harguments⟩ := Expr.exists_orderly_jobOfArguments arguments
      exact ⟨_, harguments.bind fun values => orderly_lift (addHighlight ⟨values⟩)⟩
  | expression e => exact ⟨0, orderly_pure ()⟩
  | unsupported rule => exact ⟨1, orderly_lift _⟩

/-! ## Scripts end -/

end MetricScript
