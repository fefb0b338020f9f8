import Sponge.Programs

/-!
The event loop: rules that wait for a file descriptor, and rounds of `poll`.
A rule is a descriptor, a direction and three callbacks; the state on which they work is
arbitrary. The list of rules is a list of labels into a table. What `poll` returns is an
argument, so that a statement about a round holds for every kernel. An invariant of the rules
that are left and of the state is kept by rounds if the callbacks keep it.
-/
namespace Sponge

/-- An exception. The last one stands for an index outside a vector. -/
inductive Failure where
  | runtimeError (what : String)
  | unixError (attempt : String)
  | outOfRange
  deriving DecidableEq, Repr

/-- What all duplicates of a descriptor share. -/
structure FDWrapper where
  eof : Bool := false
  closed : Bool := false
  readCount : UInt32 := 0
  writeCount : UInt32 := 0
  deriving DecidableEq, Repr

inductive Direction where
  | In
  | Out
  deriving DecidableEq, Repr

namespace EventLoop

open Programs

structure Rule (σ : Type) where
  fd : σ → FDWrapper
  direction : Direction
  callback : EStateM Failure σ Unit
  interest : σ → Bool := fun _ => true
  cancel : EStateM Failure σ Unit := pure ()

inductive Result where
  | Success
  | Timeout
  | Exit
  deriving DecidableEq, Repr

/-- The flags that `poll` can set. -/
structure Revents where
  pollIn : Bool := false
  pollOut : Bool := false
  pollErr : Bool := false
  pollHup : Bool := false
  pollNval : Bool := false
  deriving DecidableEq, Repr

/-- What is asked about a descriptor, if anything, and what the kernel says. -/
structure PollFd where
  events : Option Direction
  revents : Revents := {}
  deriving DecidableEq, Repr

namespace PollFd

def error (p : PollFd) : Bool := p.revents.pollErr || p.revents.pollNval

def ready (p : PollFd) : Bool :=
  match p.events with
  | none => false
  | some .In => p.revents.pollIn
  | some .Out => p.revents.pollOut

/-- If we asked, and there is nothing but a hangup, the descriptor is defunct. -/
def defunct (p : PollFd) : Bool := p.revents.pollHup && p.events.isSome && !p.ready

end PollFd

/-- How a call of `poll` ends: with the flags of the descriptors in order, by a signal, or
with another error. -/
inductive PollAnswer where
  | returned (revents : List Revents)
  | interrupted
  | failed

/-- Some descriptor is reported to have hung up. -/
def PollAnswer.HangsUp : PollAnswer → Prop
  | .returned revents => ∃ flags ∈ revents, flags.pollHup = true
  | _ => False

variable {ι σ : Type}

namespace Rule

def serviceCount (r : Rule σ) (s : σ) : UInt32 :=
  match r.direction with
  | .In => (r.fd s).readCount
  | .Out => (r.fd s).writeCount

/-- There is nothing more to read, or the descriptor has been closed. -/
def finished (r : Rule σ) (s : σ) : Bool :=
  (r.direction == .In && (r.fd s).eof) || (r.fd s).closed

end Rule

def pollError : Failure := .runtimeError "EventLoop: error on polled file descriptor"

def busyWait : Failure := .runtimeError
  "EventLoop: busy wait detected: callback did not read/write fd and is still interested"

/-- Call the callback of a rule that is ready. It has to do something about its descriptor. -/
def Rule.serve (rule : Rule σ) : EStateM Failure σ Unit := do
  let countBefore := rule.serviceCount (← get)
  rule.callback
  let s ← get
  if countBefore = rule.serviceCount s ∧ rule.interest s = true then
    throw busyWait

/-- The kernel fills in the flags. -/
def fill : List PollFd → List Revents → List PollFd
  | [], _ => []
  | p :: ps, [] => p :: fill ps []
  | p :: ps, revents :: rest => { p with revents := revents } :: fill ps rest

variable (table : ι → Rule σ)

/-- The first pass: rules that are finished are cancelled; for each other one there is an
entry to be polled, a placeholder if the rule is not interested. The last component says
whether there is anything to poll. -/
def setUp : List ι → EStateM Failure σ (List ι × List PollFd × Bool)
  | [] => pure ([], [], false)
  | i :: rules => do
    if (table i).finished (← get) then
      (table i).cancel
      setUp rules
    else
      let interested := (table i).interest (← get)
      let (kept, pollfds, something) ← setUp rules
      let events := if interested then some (table i).direction else none
      pure (i :: kept, ⟨events, {}⟩ :: pollfds, interested || something)

/-- The second pass. The index moves on with every rule, also with one that is erased. -/
def dispatch (pollfds : List PollFd) : ℕ → List ι → EStateM Failure σ (List ι)
  | _, [] => pure []
  | idx, i :: rules => do
    match pollfds[idx]? with
    | none => throw .outOfRange
    | some p =>
      if p.error then
        throw pollError
      if p.defunct then
        (table i).cancel
        dispatch pollfds (idx + 1) rules
      else
        if p.ready then
          (table i).serve
        let kept ← dispatch pollfds (idx + 1) rules
        pure (i :: kept)

/-- One round, given the end of its call of `poll`. An error of `poll` is caught, and then no
flag is set. The rules that are left are returned with the result. -/
def waitNextEvent (answer : PollAnswer) (rules : List ι) :
    EStateM Failure σ (Result × List ι) := do
  let (rules, pollfds, something) ← setUp table rules
  if !something then
    return (.Exit, rules)
  match answer with
  | .interrupted => return (.Exit, rules)
  | .failed =>
    let rules ← dispatch table pollfds 0 rules
    return (.Success, rules)
  | .returned revents =>
    let pollfds := fill pollfds revents
    if pollfds.all fun p => p.revents == {} then
      return (.Timeout, rules)
    let rules ← dispatch table pollfds 0 rules
    return (.Success, rules)

/-- Rounds until one of them exits, as far as the answers go. The first component says whether
one did. -/
def rounds : List PollAnswer → List ι → EStateM Failure σ (Bool × List ι)
  | [], rules => pure (false, rules)
  | answer :: answers, rules => do
    let (result, rules) ← waitNextEvent table answer rules
    if result = .Exit then
      return (true, rules)
    rounds answers rules

section Rounds

variable {table} {H : Prop} {I : List ι → σ → Prop} {A : ι → Bool → σ → Prop}
  {E : Failure → σ → Prop}

/-- What the rules have to do for an invariant I of the rules that are left and the state, if
hangups are reported only under H. What the answer of `interest` says, A, is left alone by
what comes between it and the turn of the rule. -/
structure Cooperative (table : ι → Rule σ) (H : Prop) (I : List ι → σ → Prop)
    (A : ι → Bool → σ → Prop) (E : Failure → σ → Prop) : Prop where
  noted : ∀ live, ∀ i ∈ live, ∀ s, I live s → (table i).finished s = false →
    A i ((table i).interest s) s
  callback : ∀ live, ∀ i ∈ live, ∀ n,
    Ensures (fun s => I live s ∧ A i true s ∧ (table i).serviceCount s = n) (table i).callback
      (fun _ s => I live s ∧
        ((table i).serviceCount s ≠ n ∨ (table i).interest s = false ∨ E busyWait s)) E
  cancel_finished : ∀ before i after,
    Ensures (fun s => I (before ++ i :: after) s ∧ (table i).finished s = true) (table i).cancel
      (fun _ => I (before ++ after)) E
  cancel_defunct : H → ∀ before i after,
    Ensures (I (before ++ i :: after)) (table i).cancel (fun _ => I (before ++ after)) E
  finished_apart : ∀ live i j, [i, j].Sublist live → ∀ b,
    Ensures (fun s => I live s ∧ A i b s) (table j).cancel (fun _ => A i b) (fun _ _ => True)
  defunct_apart : ∀ live i j, [j, i].Sublist live →
    Ensures (fun s => I live s ∧ A i true s) (table j).cancel (fun _ => A i true) (fun _ _ => True)
  callback_apart : ∀ live i j, [j, i].Sublist live →
    Ensures (fun s => I live s ∧ A i true s) (table j).callback (fun _ => A i true)
      (fun _ _ => True)
  poll : ∀ live s, I live s → E pollError s

/-- Each rule of a round has its entry, and what was noted for the two still holds. -/
def Noted (A : ι → Bool → σ → Prop) (rules : List ι) (pollfds : List PollFd) (s : σ) : Prop :=
  List.Forall₂ (fun i q => A i q.events.isSome s) rules pollfds

/-- The flags of the kernel do not change what was asked. -/
theorem Noted.fill {rules : List ι} {pollfds : List PollFd} {s : σ} (h : Noted A rules pollfds s)
    (revents : List Revents) : Noted A rules (fill pollfds revents) s := by
  unfold Noted at h
  induction h generalizing revents with
  | nil => exact List.Forall₂.nil
  | cons hfirst _ ih =>
    cases revents with
    | nil => exact List.Forall₂.cons hfirst (ih [])
    | cons flags rest => exact List.Forall₂.cons hfirst (ih rest)

/-- Where nothing is asked, no rule was interested. -/
theorem Noted.idle {rules : List ι} {pollfds : List PollFd} {s : σ} (h : Noted A rules pollfds s)
    (hnone : (pollfds.any fun q => q.events.isSome) = false) : ∀ i ∈ rules, A i false s := by
  unfold Noted at h
  induction h with
  | nil => exact fun i hi => by simp at hi
  | cons hfirst _ ih =>
    rw [List.any_cons, Bool.or_eq_false_iff] at hnone
    rw [hnone.1] at hfirst
    exact List.forall_mem_cons.mpr ⟨hfirst, ih hnone.2⟩

/-- What is noted about each of several rules is kept if it is kept for each. -/
theorem noted_kept {m : EStateM Failure σ Unit} {P : σ → Prop} {rules : List ι}
    (h : ∀ i ∈ rules, ∀ b, Ensures (fun s => P s ∧ A i b s) m (fun _ => A i b) (fun _ _ => True))
    (pollfds : List PollFd) :
    Ensures (fun s => P s ∧ Noted A rules pollfds s) m (fun _ => Noted A rules pollfds)
      (fun _ _ => True) := by
  rw [ensures_iff]
  rintro s ⟨hP, hall⟩
  cases hm : m s with
  | error e s' => trivial
  | ok a s' =>
    unfold Noted at hall
    induction hall with
    | nil => exact List.Forall₂.nil
    | cons hfirst _ ih =>
      have hkept := ensures_iff.mp (h _ (List.mem_cons_self ..) _) s ⟨hP, hfirst⟩
      rw [hm] at hkept
      exact List.Forall₂.cons hkept (ih fun i hi => h i (List.mem_cons_of_mem _ hi))

/-- What a rule may rely on in its turn: only what was said in favour. -/
def Asked (A : ι → Bool → σ → Prop) (i : ι) (b : Bool) (s : σ) : Prop := b = true → A i true s

theorem Noted.asked {rules : List ι} {pollfds : List PollFd} {s : σ} (h : Noted A rules pollfds s) :
    Noted (Asked A) rules pollfds s := by
  refine List.Forall₂.imp (fun i q hq hb => ?_) h
  rwa [hb] at hq

theorem asked_kept {m : EStateM Failure σ Unit} {P : σ → Prop} {i : ι}
    (h : Ensures (fun s => P s ∧ A i true s) m (fun _ => A i true) (fun _ _ => True)) (b : Bool) :
    Ensures (fun s => P s ∧ Asked A i b s) m (fun _ => Asked A i b) (fun _ _ => True) := by
  cases b with
  | true => exact h.mono (fun s hs => ⟨hs.1, hs.2 rfl⟩) (fun _ s hs _ => hs) (fun _ _ => id)
  | false =>
    refine ensures_iff.mpr fun s _ => ?_
    cases m s with
    | ok a s' => exact fun hb => absurd hb Bool.noConfusion
    | error e s' => trivial

section Order

variable {before rules : List ι} {i j : ι}

theorem pair_before (hj : j ∈ before) : [j, i].Sublist (before ++ i :: rules) :=
  (List.singleton_sublist.mpr hj).append (List.singleton_sublist.mpr (List.mem_cons_self ..))

theorem pair_after (hj : j ∈ rules) : [i, j].Sublist (before ++ i :: rules) :=
  List.Sublist.trans ((List.singleton_sublist.mpr hj).cons_cons i)
    (List.sublist_append_right before (i :: rules))

theorem nodup_erased (h : (before ++ i :: rules).Nodup) : (before ++ rules).Nodup :=
  h.sublist ((List.sublist_cons_self i rules).append_left before)

end Order

/-- The first pass, after some rules have been kept. -/
theorem setUp_ensures (h : Cooperative table H I A E) (before rules : List ι)
    (pollfds₀ : List PollFd) :
    Ensures (fun s => I (before ++ rules) s ∧ Noted A before pollfds₀ s) (setUp table rules)
      (fun p s => I (before ++ p.1) s ∧ p.1.Sublist rules ∧
        Noted A (before ++ p.1) (pollfds₀ ++ p.2.1) s ∧
        (∀ q ∈ p.2.1, q.revents = {}) ∧ p.2.2 = p.2.1.any fun q => q.events.isSome) E := by
  induction rules generalizing before pollfds₀ with
  | nil =>
    refine ensures_pure ?_
    rintro s ⟨hI, hnoted⟩
    refine ⟨hI, List.Sublist.refl _, ?_, fun q hq => by simp at hq, rfl⟩
    rwa [List.append_nil, List.append_nil]
  | cons i rules ih =>
    refine ensures_get_bind fun s hs => ?_
    split
    · rename_i hfinished
      have hkept := noted_kept (A := A)
        (fun j hj b => h.finished_apart (before ++ i :: rules) j i (pair_before hj) b) pollfds₀
      refine (((h.cancel_finished before i rules).and hkept).pre ?_).bind fun _ => ?_
      · rintro _ rfl
        exact ⟨⟨hs.1, hfinished⟩, hs⟩
      · refine (ih before pollfds₀).post ?_
        rintro p s' ⟨hI, hsub, hrest⟩
        exact ⟨hI, hsub.cons _, hrest⟩
    · rename_i hgoing
      refine ensures_get_bind ?_
      rintro s' rfl
      have hassoc : ∀ rest, before ++ i :: rest = (before ++ [i]) ++ rest := fun rest => by simp
      let q : PollFd := ⟨if (table i).interest s' then some (table i).direction else none, {}⟩
      have hq : q.events.isSome = (table i).interest s' := by
        dsimp only [q]
        cases (table i).interest s' <;> rfl
      have hrule := h.noted (before ++ i :: rules) i (by simp) s' hs.1 (Bool.not_eq_true _ ▸ hgoing)
      refine ((ih (before ++ [i]) (pollfds₀ ++ [q])).pre ?_).bind ?_
      · rintro _ rfl
        refine ⟨hassoc rules ▸ hs.1, List.rel_append hs.2 (List.Forall₂.cons ?_ List.Forall₂.nil)⟩
        exact hq.symm ▸ hrule
      · rintro ⟨kept, pollfds, something⟩
        refine ensures_pure ?_
        rintro t ⟨hI, hsub, hnoted, hunset, hany⟩
        refine ⟨(hassoc kept).symm ▸ hI, hsub.cons_cons _, ?_,
          List.forall_mem_cons.mpr ⟨rfl, hunset⟩, ?_⟩
        · rw [hassoc, List.append_cons pollfds₀]
          exact hnoted
        · rw [List.any_cons]
          exact congrArg₂ (· || ·) hq.symm hany

/-- A rule whose callback does its duty is not found waiting. -/
theorem Cooperative.serve (h : Cooperative table H I A E) (before rules : List ι) (i : ι)
    (pollfds : List PollFd) :
    Ensures (fun s => I (before ++ i :: rules) s ∧ A i true s ∧ Noted (Asked A) rules pollfds s)
      (table i).serve
      (fun _ s => I (before ++ i :: rules) s ∧ Noted (Asked A) rules pollfds s) E := by
  have hkept := noted_kept (A := Asked A)
    (fun j hj => asked_kept (h.callback_apart (before ++ i :: rules) j i (pair_after hj))) pollfds
  refine ensures_get_bind fun s hs => ?_
  have hcall := (h.callback (before ++ i :: rules) i (by simp) ((table i).serviceCount s)).and hkept
  refine (hcall.pre ?_).bind fun _ => ?_
  · rintro _ rfl
    exact ⟨⟨hs.1, hs.2.1, rfl⟩, hs.1, hs.2.2⟩
  · refine ensures_get_bind ?_
    rintro s' ⟨⟨hI, hduty⟩, hnoted⟩
    split
    · rename_i hbusy
      rcases hduty with hcount | hidle | hallowed
      · exact absurd hbusy.1.symm hcount
      · exact absurd (hbusy.2.symm.trans hidle) Bool.noConfusion
      · exact ensures_throw fun t ht => ht ▸ hallowed
    · refine ensures_pure ?_
      rintro _ rfl
      exact ⟨hI, hnoted⟩

theorem events_of_ready {p : PollFd} (h : p.ready = true) : p.events.isSome = true := by
  unfold PollFd.ready at h
  split at h
  · exact absurd h Bool.noConfusion
  · rename_i heq
    rw [heq]
    rfl
  · rename_i heq
    rw [heq]
    rfl

/-- The second pass, after some rules have had their turn. The index stays within the vector,
and the entry it finds is that of the rule. -/
theorem dispatch_ensures (h : Cooperative table H I A E) {pollfds : List PollFd}
    (hhup : ∀ p ∈ pollfds, p.revents.pollHup = true → H) (idx : ℕ) (before rules : List ι) :
    Ensures (fun s => I (before ++ rules) s ∧ Noted (Asked A) rules (pollfds.drop idx) s)
      (dispatch table pollfds idx rules)
      (fun kept s => I (before ++ kept) s ∧ kept.Sublist rules) E := by
  induction rules generalizing idx before with
  | nil => exact ensures_pure fun s hs => ⟨hs.1, List.Sublist.refl _⟩
  | cons i rules ih =>
    cases hp : pollfds[idx]? with
    | none =>
      unfold dispatch
      rw [hp]
      refine ensures_throw ?_
      rintro s ⟨-, hall⟩
      rw [List.drop_eq_nil_of_le (List.getElem?_eq_none_iff.mp hp)] at hall
      exact nomatch hall
    | some p =>
      have hmem := List.mem_of_getElem? hp
      obtain ⟨hlt, rfl⟩ := List.getElem?_eq_some_iff.mp hp
      rw [List.drop_eq_getElem_cons hlt]
      have hassoc : ∀ rest, before ++ i :: rest = (before ++ [i]) ++ rest := fun rest => by simp
      unfold dispatch
      rw [hp]
      dsimp only
      split
      · exact ensures_throw fun s hs => h.poll _ s hs.1
      · split
        · rename_i hdefunct
          have hup : H := by
            simp only [PollFd.defunct, Bool.and_eq_true] at hdefunct
            exact hhup _ hmem hdefunct.1.1
          have hkept := noted_kept (A := Asked A)
            (fun j hj => asked_kept (h.defunct_apart (before ++ i :: rules) j i (pair_after hj)))
            (pollfds.drop (idx + 1))
          refine (((h.cancel_defunct hup before i rules).and hkept).pre ?_).bind fun _ => ?_
          · rintro s ⟨hI, hall⟩
            exact ⟨hI, hI, (List.forall₂_cons.mp hall).2⟩
          · refine (ih (idx + 1) before).post ?_
            rintro kept s ⟨hI, hsub⟩
            exact ⟨hI, hsub.cons _⟩
        · have hrest : Ensures
              (fun s => I (before ++ i :: rules) s ∧
                Noted (Asked A) rules (pollfds.drop (idx + 1)) s)
              (dispatch table pollfds (idx + 1) rules >>= fun kept => pure (i :: kept))
              (fun kept s => I (before ++ kept) s ∧ kept.Sublist (i :: rules)) E := by
            refine ((ih (idx + 1) (before ++ [i])).pre ?_).bind fun kept => ?_
            · exact fun s hs => ⟨hassoc rules ▸ hs.1, hs.2⟩
            · exact ensures_pure fun s hs => ⟨(hassoc kept).symm ▸ hs.1, hs.2.cons_cons _⟩
          split
          · rename_i hready
            refine ((h.serve before rules i (pollfds.drop (idx + 1))).pre ?_).bind fun _ => hrest
            rintro s ⟨hI, hall⟩
            obtain ⟨hrule, hnoted⟩ := List.forall₂_cons.mp hall
            exact ⟨hI, hrule (events_of_ready hready), hnoted⟩
          · refine hrest.pre ?_
            rintro s ⟨hI, hall⟩
            exact ⟨hI, (List.forall₂_cons.mp hall).2⟩

/-- Before the kernel answers there are no flags, and then only those of the answer. -/
theorem pollHup_of_fill {pollfds : List PollFd} {revents : List Revents}
    (hnone : ∀ p ∈ pollfds, p.revents.pollHup = false) :
    ∀ p ∈ fill pollfds revents, p.revents.pollHup = true →
      (PollAnswer.returned revents).HangsUp := by
  induction pollfds generalizing revents with
  | nil => exact fun p hp => by simp [fill] at hp
  | cons q pollfds ih =>
    rw [List.forall_mem_cons] at hnone
    cases revents with
    | nil =>
      rw [fill, List.forall_mem_cons]
      exact ⟨fun hup => absurd (hup.symm.trans hnone.1) Bool.noConfusion, ih hnone.2⟩
    | cons flags rest =>
      rw [fill, List.forall_mem_cons]
      refine ⟨fun hup => ⟨flags, List.mem_cons_self .., hup⟩, fun p hp hup => ?_⟩
      obtain ⟨flags', hmem, hset⟩ := ih hnone.2 p hp hup
      exact ⟨flags', List.mem_cons_of_mem _ hmem, hset⟩

/-- A round keeps what its rules keep, and cancels rules but never adds one. It ends for want
of interest only when no rule that is left is interested. -/
theorem waitNextEvent_ensures (h : Cooperative table H I A E) {answer : PollAnswer}
    (hhup : answer.HangsUp → H) (rules : List ι) :
    Ensures (I rules) (waitNextEvent table answer rules)
      (fun p s => I p.2 s ∧ p.2.Sublist rules ∧
        (p.1 = .Exit → answer = .interrupted ∨ ∀ i ∈ p.2, A i false s)) E := by
  refine ((setUp_ensures h [] rules []).pre fun s hs => ⟨hs, List.Forall₂.nil⟩).bind ?_
  rintro ⟨kept, pollfds, something⟩
  refine ensures_of_start ?_
  rintro s ⟨hI, hsub, hnoted, hunset, hany⟩
  have hnohup : ∀ p ∈ pollfds, p.revents.pollHup = false := fun p hp => by rw [hunset p hp]
  have hdispatch : ∀ pollfds, Noted A kept pollfds s →
      (∀ p ∈ pollfds, p.revents.pollHup = true → H) → Ensures (fun s' => s' = s)
      (dispatch table pollfds 0 kept >>= fun left => pure (Result.Success, left))
      (fun p s => I p.2 s ∧ p.2.Sublist rules ∧
        (p.1 = .Exit → answer = .interrupted ∨ ∀ i ∈ p.2, A i false s)) E := by
    intro pollfds hnoted hhup
    refine ((dispatch_ensures h hhup 0 [] kept).pre ?_).bind fun left => ?_
    · rintro _ rfl
      exact ⟨hI, hnoted.asked⟩
    · exact ensures_pure fun t ht => ⟨ht.1, ht.2.trans hsub, fun hexit => by simp at hexit⟩
  dsimp only at hany ⊢
  split
  · rename_i hnone
    refine ensures_pure ?_
    rintro _ rfl
    rw [Bool.not_eq_true'] at hnone
    exact ⟨hI, hsub, fun _ => Or.inr (hnoted.idle (hany.symm.trans hnone))⟩
  · cases answer with
    | interrupted =>
      refine ensures_pure ?_
      rintro _ rfl
      exact ⟨hI, hsub, fun _ => Or.inl rfl⟩
    | failed =>
      refine hdispatch pollfds hnoted fun p hp hup => ?_
      exact absurd (hup.symm.trans (hnohup p hp)) Bool.noConfusion
    | returned revents =>
      dsimp only
      split
      · refine ensures_pure ?_
        rintro _ rfl
        exact ⟨hI, hsub, fun hexit => by simp at hexit⟩
      · exact hdispatch _ (hnoted.fill revents) fun p hp hup =>
          hhup (pollHup_of_fill hnohup p hp hup)

/-- What one round keeps, any number of rounds keep. -/
theorem rounds_ensures (h : Cooperative table H I A E) (answers : List PollAnswer)
    (hhup : ∀ answer ∈ answers, answer.HangsUp → H) (rules : List ι) :
    Ensures (I rules) (rounds table answers rules)
      (fun p s => I p.2 s ∧ p.2.Sublist rules ∧
        (p.1 = true → PollAnswer.interrupted ∈ answers ∨ ∀ i ∈ p.2, A i false s)) E := by
  induction answers generalizing rules with
  | nil => exact ensures_pure fun s hs => ⟨hs, List.Sublist.refl _, fun hexit => by simp at hexit⟩
  | cons answer answers ih =>
    rw [List.forall_mem_cons] at hhup
    refine (waitNextEvent_ensures h hhup.1 rules).bind ?_
    rintro ⟨result, kept⟩
    refine ensures_of_start ?_
    rintro s ⟨hI, hsub, hexit⟩
    dsimp only at hI hsub hexit ⊢
    split
    · rename_i hend
      refine ensures_pure ?_
      rintro _ rfl
      refine ⟨hI, hsub, fun _ => ?_⟩
      rcases hexit hend with rfl | hidle
      · exact Or.inl (List.mem_cons_self ..)
      · exact Or.inr hidle
    · refine ((ih hhup.2 kept).pre (by rintro _ rfl; exact hI)).post ?_
      rintro p t ⟨hI', hsub', hexit'⟩
      refine ⟨hI', hsub'.trans hsub, fun hend => ?_⟩
      exact (hexit' hend).imp_left (List.mem_cons_of_mem answer)

end Rounds

/-- What happens to rules: a callback or a cancellation. -/
inductive Event (ι : Type) where
  | called (i : ι)
  | cancelled (i : ι)
  deriving DecidableEq, Repr

def Event.rule : Event ι → ι
  | .called i => i
  | .cancelled i => i

/-- A state with a record of what happened. -/
structure Logged (ι σ : Type) where
  log : List (Event ι)
  world : σ

namespace Logged

def worldLens : Lens (Logged ι σ) σ := ⟨world, fun s w => { w with world := s }⟩

def note (e : Event ι) : EStateM Failure (Logged ι σ) Unit :=
  modify fun w => { w with log := w.log ++ [e] }

end Logged

/-- The rules of a table, with a record of their calls. -/
def logged (table : ι → Rule σ) (i : ι) : Rule (Logged ι σ) where
  fd w := (table i).fd w.world
  direction := (table i).direction
  callback := do
    Logged.note (.called i)
    zoom Logged.worldLens (table i).callback
  interest w := (table i).interest w.world
  cancel := do
    Logged.note (.cancelled i)
    zoom Logged.worldLens (table i).cancel

/-- Nothing happens to a rule after its cancellation. -/
def LifeCycle (log : List (Event ι)) : Prop :=
  log.Pairwise fun e e' => ∀ i, e = .cancelled i → e'.rule ≠ i

section LifeCycle

variable {log : List (Event ι)}

theorem LifeCycle.snoc (h : LifeCycle log) {e : Event ι} (hlive : .cancelled e.rule ∉ log) :
    LifeCycle (log ++ [e]) := by
  refine List.pairwise_append.mpr ⟨h, List.pairwise_singleton _ _, ?_⟩
  rintro e₁ he₁ e₂ he₂ i rfl
  rw [List.mem_singleton.mp he₂]
  rintro rfl
  exact hlive he₁

/-- What is known while rules of a list are left. -/
structure OnRecord (start live : List ι) (log : List (Event ι)) : Prop where
  distinct : live.Nodup
  among : ∀ i ∈ live, i ∈ start
  lifeCycle : LifeCycle log
  left_iff : ∀ i ∈ start, i ∈ live ↔ .cancelled i ∉ log

/-- A program on the state leaves the record alone. -/
theorem noted_ensures {P : List (Event ι) → Prop} {e : Event ι} {m : EStateM Failure σ Unit}
    {Q : List (Event ι) → Prop} (h : ∀ log, P log → Q (log ++ [e])) :
    Ensures (fun w : Logged ι σ => P w.log)
      (do Logged.note e; zoom Logged.worldLens m)
      (fun _ w => Q w.log) (fun _ w => Q w.log) := by
  refine (ensures_modify (R := fun _ w => Q w.log) fun w hw => h w.log hw).bind fun _ => ?_
  refine ensures_of_start fun w hw => ?_
  refine (zoom_ensures (Q := fun _ _ => True) (E := fun _ _ => True) (ensures_iff.mpr ?_)).mono
    (fun _ => id) ?_ ?_
  · intro s _
    cases m s <;> trivial
  · rintro _ w' ⟨s, -, rfl⟩
    exact hw
  · rintro _ w' ⟨s, -, rfl⟩
    exact hw

theorem OnRecord.called {start live : List ι} (h : OnRecord start live log) {i : ι}
    (hi : i ∈ live) : OnRecord start live (log ++ [.called i]) where
  distinct := h.distinct
  among := h.among
  lifeCycle := h.lifeCycle.snoc ((h.left_iff i (h.among i hi)).mp hi)
  left_iff j hj := by simpa using h.left_iff j hj

theorem OnRecord.cancelled {start before after : List ι} {i : ι}
    (h : OnRecord start (before ++ i :: after) log) :
    OnRecord start (before ++ after) (log ++ [.cancelled i]) := by
  have hi : i ∈ before ++ i :: after := by simp
  have hlive := (h.left_iff i (h.among i hi)).mp hi
  refine ⟨nodup_erased h.distinct, ?_, h.lifeCycle.snoc hlive, ?_⟩
  · intro j hj
    exact h.among j (((List.sublist_cons_self i after).append_left before).subset hj)
  · intro j hj
    by_cases hji : j = i
    · subst hji
      have hgone : j ∉ before ++ after := by
        obtain ⟨-, hafter, hbefore⟩ := List.nodup_append.mp h.distinct
        rw [List.mem_append, not_or]
        exact ⟨fun hj => hbefore j hj j (List.mem_cons_self ..) rfl, (List.nodup_cons.mp hafter).1⟩
      simp [hgone]
    · have hsame := h.left_iff j hj
      simp only [List.mem_append, List.mem_cons] at hsame ⊢
      have hother : Event.cancelled j ≠ .cancelled i := fun heq => hji (Event.cancelled.inj heq)
      tauto

theorem ensures_true (m : EStateM Failure σ Unit) {P : σ → Prop} :
    Ensures P m (fun _ _ => True) (fun _ _ => True) :=
  ensures_iff.mpr fun s _ => by cases m s <;> trivial

theorem logged_cooperative (table : ι → Rule σ) (start : List ι) :
    Cooperative (logged table) True (fun live w => OnRecord start live w.log) (fun _ _ _ => True)
      (fun _ w => LifeCycle w.log) := by
  have hcancel : ∀ before i after,
      Ensures (fun w => OnRecord start (before ++ i :: after) w.log) (logged table i).cancel
        (fun _ w => OnRecord start (before ++ after) w.log) (fun _ w => LifeCycle w.log) := by
    intro before i after
    exact (noted_ensures (P := OnRecord start (before ++ i :: after))
      (Q := OnRecord start (before ++ after)) fun log h => h.cancelled).mono (fun w hw => hw)
      (fun _ w hw => hw) (fun _ w hw => hw.lifeCycle)
  refine ⟨fun _ _ _ _ _ _ => trivial, ?_, ?_, fun _ => hcancel, fun _ _ _ _ _ => ensures_true _,
    fun _ _ _ _ => ensures_true _, fun _ _ _ _ => ensures_true _, fun _ _ h => h.lifeCycle⟩
  · intro live i hi n
    refine (noted_ensures (P := OnRecord start live) (Q := OnRecord start live)
      fun log h => h.called hi).mono (fun w hw => hw.1) ?_ (fun _ w hw => hw.lifeCycle)
    exact fun _ w hw => ⟨hw, Or.inr (Or.inr hw.lifeCycle)⟩
  · intro before i after
    exact (hcancel before i after).pre fun w hw => hw.1

/-- The rules that are left are those that were not cancelled. -/
def CancelledOnce (rules : List ι) : EStateM.Result Failure (Logged ι σ) (Bool × List ι) → Prop
  | .ok (_, left) w => LifeCycle w.log ∧ ∀ i ∈ rules, i ∈ left ↔ .cancelled i ∉ w.log
  | .error _ w => LifeCycle w.log

end LifeCycle

end EventLoop

end Sponge
