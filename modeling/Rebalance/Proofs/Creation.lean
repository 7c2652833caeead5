/-
  Rebalance.Proofs.Creation

  What a demander leaves on the network when it comes into being, and when it
  stops.  Topics are registered one after another, up to the first that is taken
  (`registerAll_cases`), and nobody takes back the registrations before it: so a
  creation that fails is clean only where the settings are unusable, or the topic
  of the first worker is taken.  One that succeeds registers the topics of all
  workers, and the end of the first stop gives them all up (`registrations_step`).
-/
import Rebalance.Proofs.Assembly
import Rebalance.Proofs.StopState

namespace Rebalance

/-- A node that listens on topics, as it is registered. -/
def registrationsOf (node : NodeId) (topics : List Topic) : List (NodeId × Topic) :=
  topics.map fun t => (node, t)

-- ============================================================================
-- Registering
-- ============================================================================

namespace Network

theorem registrations_register {n m : Network} {node : NodeId} {topic : Topic} {i : RouteId}
    (h : n.register node topic = .ok (m, i)) :
    m.registrations = n.registrations ++ [(node, topic)] := by
  unfold register at h
  split at h
  · cases h
  · cases h
    rw [registrations, List.filterMap_append]
    rfl

end Network

namespace Cluster

variable {c : Cluster} {node : NodeId}

theorem listenOn_of_taken {t : Topic} (h : (node, t) ∈ c.network.registrations)
    (l : ClusterListener) :
    c.listenOn node t l = .error (.network (.duplicateHandler t.text)) := by
  rw [← Network.isRegistered_iff] at h
  rw [listenOn, Network.register, if_pos h]

theorem listenOn_of_free {t : Topic} (h : (node, t) ∉ c.network.registrations)
    (l : ClusterListener) :
    ∃ c', c.listenOn node t l = .ok c' ∧
      c'.network.registrations = c.network.registrations ++ [(node, t)] := by
  rw [← Network.isRegistered_iff] at h
  cases hok : c.network.register node t with
  | error cause =>
    rw [Network.register, if_neg h] at hok
    cases hok
  | ok r =>
    refine ⟨{ c with network := r.1, listeners := c.listeners ++ [l] }, ?_,
      Network.registrations_register hok⟩
    rw [listenOn, hok]

/-- Topics are registered up to the first that is taken; those before it stay registered. -/
theorem registerAll_cases (node : NodeId) (listener : Topic → ClusterListener) {topics : List Topic}
    (hn : topics.Nodup) (c : Cluster) :
    let made := Demander.registerAll (fun t c => c.listenOn node t (listener t)) topics c
    let before := c.network.registrations
    (made.2 = .ok () ∧ (∀ t ∈ topics, (node, t) ∉ before) ∧
        made.1.network.registrations = before ++ registrationsOf node topics) ∨
      ∃ earlier t later, topics = earlier ++ t :: later ∧ (node, t) ∈ before ∧
        (∀ u ∈ earlier, (node, u) ∉ before) ∧
        made.2 = .error (.network (.duplicateHandler t.text)) ∧
        made.1.network.registrations = before ++ registrationsOf node earlier := by
  induction topics generalizing c with
  | nil => exact .inl ⟨rfl, nofun, (List.append_nil _).symm⟩
  | cons t rest ih =>
    obtain ⟨ht, hrest⟩ := List.nodup_cons.mp hn
    simp only [Demander.registerAll]
    by_cases htaken : (node, t) ∈ c.network.registrations
    · rw [listenOn_of_taken htaken]
      exact .inr ⟨[], t, rest, rfl, htaken, nofun, rfl, (List.append_nil _).symm⟩
    · obtain ⟨c₁, hok, hregs⟩ := listenOn_of_free htaken (listener t)
      rw [hok]
      -- The registration of `t` says nothing about the topics after it.
      have hothers : ∀ u ∈ rest,
          (node, u) ∈ c₁.network.registrations ↔ (node, u) ∈ c.network.registrations := by
        intro u hu
        have hne : u ≠ t := fun h => ht (h ▸ hu)
        simp [hregs, hne]
      rcases ih hrest c₁ with ⟨hall, hfree, hafter⟩ |
        ⟨earlier, u, later, rfl, hu, hfree, herror, hafter⟩
      · refine .inl ⟨hall, fun u hu => ?_, ?_⟩
        · rcases List.mem_cons.mp hu with rfl | hu
          · exact htaken
          · exact fun hmem => hfree u hu ((hothers u hu).mpr hmem)
        · rw [hafter, hregs, List.append_assoc]
          rfl
      · refine .inr ⟨t :: earlier, u, later, rfl, (hothers u (by simp)).mp hu, fun v hv => ?_,
          herror, ?_⟩
        · rcases List.mem_cons.mp hv with rfl | hv
          · exact htaken
          · exact fun hmem => hfree v hv ((hothers v (List.mem_append_left _ hv)).mpr hmem)
        · rw [hafter, hregs, List.append_assoc]
          rfl

end Cluster

-- ============================================================================
-- Coming into being
-- ============================================================================

namespace Demander

variable {settings : Settings} {site : Site} {c : Cluster}

/-- The topics on which a demander listens that takes part. -/
def topicsFor (settings : Settings) : List Topic :=
  (WorkerPool.ofSize settings.dataset settings.poolSize).topics .demand

theorem nodup_topicsFor (settings : Settings) : (topicsFor settings).Nodup :=
  Cluster.nodup_topics _ .demand

/-- How a creation can end, and what is registered then. -/
inductive Creation (settings : Settings) (site : Site) (c : Cluster) :
    Cluster × Except Fault Demander → Prop where
  /-- The settings are unusable. -/
  | unusable (f : SettingFault) (hf : settings.fault? = some f) :
      Creation settings site c (c, .error (.settings f))
  /-- A topic is taken; those of the workers before it stay registered. -/
  | taken {c' : Cluster} {earlier later : List Topic} {t : Topic} (hf : settings.fault? = none)
      (ha : settings.isActive = true) (hsplit : topicsFor settings = earlier ++ t :: later)
      (ht : (site.node, t) ∈ c.network.registrations)
      (hfree : ∀ u ∈ earlier, (site.node, u) ∉ c.network.registrations)
      (hafter : c'.network.registrations =
        c.network.registrations ++ registrationsOf site.node earlier) :
      Creation settings site c (c', .error (.network (.duplicateHandler t.text)))
  /-- The demander listens on the topics of all workers. -/
  | listens {c' : Cluster} {d : Demander} (hf : settings.fault? = none)
      (ha : settings.isActive = true)
      (hfree : ∀ t ∈ topicsFor settings, (site.node, t) ∉ c.network.registrations)
      (hafter : c'.network.registrations =
        c.network.registrations ++ registrationsOf site.node (topicsFor settings))
      (hd : d.topics = topicsFor settings) : Creation settings site c (c', .ok d)
  /-- The demander takes no part. -/
  | idle {d : Demander} (hf : settings.fault? = none) (ha : settings.isActive = false)
      (hd : d.topics = []) : Creation settings site c (c, .ok d)

theorem creation (settings : Settings) (site : Site) (listener : Topic → ClusterListener)
    (c : Cluster) :
    Creation settings site c
      (create settings site (fun t c => c.listenOn site.node t (listener t)) c) := by
  unfold create
  cases hf : settings.fault? with
  | some f => exact .unusable f hf
  | none =>
    by_cases ha : settings.isActive = true
    · have hcases := Cluster.registerAll_cases site.node listener (nodup_topicsFor settings) c
      have hpool : ({ settings, site, schedule := { delay := settings.delay } } :
          Demander).pool.topics .demand = topicsFor settings := rfl
      simp only [if_pos ha]
      rw [hpool]
      generalize registerAll _ (topicsFor settings) c = made at hcases ⊢
      obtain ⟨c', r⟩ := made
      rcases hcases with ⟨rfl, hfree, hafter⟩ | ⟨earlier, t, later, hsplit, ht, hfree, rfl, hafter⟩
      · exact .listens hf ha hfree hafter rfl
      · exact .taken hf ha hsplit ht hfree hafter
    · simp only [if_neg ha]
      exact .idle hf (eq_false_of_ne_true ha) (beside_changeRound _ 0 .complete).topics

theorem node_create {σ : Type} {register : Topic → σ → Except Fault σ} {s t : σ} {d : Demander}
    (h : create settings site register s = (t, .ok d)) : d.site.node = site.node := by
  obtain ⟨-, topics, rfl | rfl⟩ := create_cases h
  · rfl
  · exact (beside_changeRound _ 0 .complete).node

namespace Creation

variable {made : Cluster × Except Fault Demander} {cause : Fault} {d : Demander}

theorem fails_iff (h : Creation settings site c made) :
    (∃ cause, made.2 = .error cause) ↔
      settings.fault? ≠ none ∨
        settings.isActive = true ∧
          ∃ t ∈ topicsFor settings, (site.node, t) ∈ c.network.registrations := by
  cases h with
  | unusable f hf => simp [hf]
  | @taken c' earlier later t hf ha hsplit ht hfree hafter =>
    refine iff_of_true ⟨_, rfl⟩ (.inr ⟨ha, t, ?_, ht⟩)
    rw [hsplit]
    exact List.mem_append_right _ List.mem_cons_self
  | listens hf ha hfree _ _ =>
    refine iff_of_false nofun ?_
    rintro (hfault | ⟨-, t, hmem, ht⟩)
    · exact hfault hf
    · exact hfree t hmem ht
  | idle hf ha _ =>
    refine iff_of_false nofun ?_
    rintro (hfault | ⟨hactive, -⟩)
    · exact hfault hf
    · exact Bool.false_ne_true (ha.symm.trans hactive)

/-- What a failed creation leaves are the topics before the first that is taken. -/
theorem left_behind (h : Creation settings site c made) (herror : made.2 = .error cause)
    (hf : settings.fault? = none) :
    ∃ earlier t later, topicsFor settings = earlier ++ t :: later ∧
      (∀ u ∈ earlier, (site.node, u) ∉ c.network.registrations) ∧
      (site.node, t) ∈ c.network.registrations ∧
      cause = .network (.duplicateHandler t.text) ∧
      made.1.network.registrations =
        c.network.registrations ++ registrationsOf site.node earlier := by
  cases h with
  | unusable f hfault => cases hf.symm.trans hfault
  | taken _ _ hsplit ht hfree hafter =>
    cases herror
    exact ⟨_, _, _, hsplit, hfree, ht, rfl, hafter⟩
  | listens => cases herror
  | idle => cases herror

/-- Nothing is left exactly if it fails for the settings, or at the first worker. -/
theorem clean_iff (h : Creation settings site c made) (herror : made.2 = .error cause) :
    made.1.network.registrations = c.network.registrations ↔
      settings.fault? ≠ none ∨
        ∃ t, (topicsFor settings).head? = some t ∧
          (site.node, t) ∈ c.network.registrations := by
  cases hf : settings.fault? with
  | some f =>
    cases h with
    | unusable => exact iff_of_true rfl (.inl nofun)
    | taken hnone => cases hnone.symm.trans hf
    | listens => cases herror
    | idle => cases herror
  | none =>
    obtain ⟨earlier, t, later, hsplit, hfree, ht, -, hafter⟩ := h.left_behind herror hf
    rw [hsplit, hafter, List.append_right_eq_self]
    cases earlier with
    | nil => exact iff_of_true rfl (.inr ⟨t, rfl, ht⟩)
    | cons u earlier =>
      refine iff_of_false nofun ?_
      rintro (hfault | ⟨v, hv, hmem⟩)
      · exact hfault rfl
      · cases hv
        exact hfree u List.mem_cons_self hmem

/-- What a creation adds that succeeds. -/
theorem added (h : Creation settings site c made) (hok : made.2 = .ok d) :
    d.topics = (if settings.isActive = true then topicsFor settings else []) ∧
      (∀ t ∈ d.topics, (site.node, t) ∉ c.network.registrations) ∧
      made.1.network.registrations =
        c.network.registrations ++ registrationsOf site.node d.topics := by
  cases h with
  | unusable => cases hok
  | taken => cases hok
  | listens hf ha hfree hafter hd =>
    cases hok
    rw [hd, if_pos ha]
    exact ⟨rfl, hfree, hafter⟩
  | idle hf ha hd =>
    cases hok
    rw [hd, ha, if_neg Bool.false_ne_true]
    exact ⟨rfl, nofun, (List.append_nil _).symm⟩

end Creation

end Demander

-- ============================================================================
-- Stopping
-- ============================================================================

namespace Cluster

variable {c : Cluster} {k : Nat} {d : Demander} {i : Demander.Input}

/-- A step gives up the topics on which the demander listens no more. -/
theorem registrations_step (hk : c.demanders[k]? = some d) (hs : d.Steady) :
    (c.step k i).network.registrations =
      c.network.registrations.diff
        (registrationsOf d.site.node (d.topics.filter fun t => !decide (t ∈ (d.step i).topics))) := by
  have hstep : c.step k i = c.setDemander k (d.step i) := by rw [step, hk]
  rw [hstep, setDemander, hk]
  refine (Network.registrations_unregisterAll _ _ _).trans ?_
  rw [Demander.node_step hs i]
  rfl

/-- A stop that comes to its end gives up all of them. -/
theorem registrations_ended (hk : c.demanders[k]? = some d) (hs : d.Steady) (h : d.EndsStop i) :
    (c.step k i).network.registrations =
      c.network.registrations.diff (registrationsOf d.site.node d.topics) := by
  rw [registrations_step hk hs, h.topics hs, List.filter_eq_self.mpr]
  exact fun t _ => by rw [decide_eq_false List.not_mem_nil, Bool.not_false]

/-- Nothing else takes anything. -/
theorem registrations_kept (hk : c.demanders[k]? = some d) (hs : d.Steady)
    (h : (d.step i).topics = d.topics) :
    (c.step k i).network.registrations = c.network.registrations := by
  have hnone : (d.topics.filter fun t => !decide (t ∈ (d.step i).topics)) = [] := by
    rw [h, List.filter_eq_nil_iff]
    exact fun t ht => by rw [decide_eq_true ht, Bool.not_true]; exact Bool.false_ne_true
  rw [registrations_step hk hs, hnone]
  exact List.diff_nil _

end Cluster

namespace Demander

/-- A demander holds registrations until the first of its stops comes to its end.  A stop that does
    was called, and one that has returned has done so. -/
structure HoldsUntilStopped (d : Demander) (own : List (NodeId × Topic)) : Prop where
  /-- The end of the first stop takes them from the network of whatever cluster the demander is in. -/
  gives : ∀ (c : Cluster) (k : Nat) (inputs : List Input) (i : Input),
    c.demanders[k]? = some (d.run inputs) → (d.run inputs).EndsStop i → ¬ d.HasStopped inputs →
      (c.step k i).network.registrations = c.network.registrations.diff own
  /-- Whatever else happens to the demander takes nothing from there. -/
  keeps : ∀ (c : Cluster) (k : Nat) (inputs : List Input) (i : Input),
    c.demanders[k]? = some (d.run inputs) → ¬ (d.run inputs).EndsStop i ∨ d.HasStopped inputs →
      (c.step k i).network.registrations = c.network.registrations
  called : ∀ inputs, d.HasStopped inputs → .stop ∈ inputs
  returned : ∀ earlier later,
    (((d.run earlier).step .stop).run later).HasReturned (d.run earlier).nextJob →
      d.HasStopped (earlier ++ .stop :: later)

theorem holdsUntilStopped {d : Demander} (hs : d.Steady) (hj : d.jobs = ∅) :
    d.HoldsUntilStopped (registrationsOf d.site.node d.topics) where
  gives c k inputs i hk hend hnot := by
    rw [Cluster.registrations_ended hk (steady_run hs inputs) hend, topics_run hs hnot,
      node_run hs inputs]
  keeps c k inputs i hk hor := by
    refine Cluster.registrations_kept hk (steady_run hs inputs) ?_
    by_cases hstopped : d.HasStopped inputs
    · have hnone := hstopped.topics hs
      rw [hnone, (closing_step (steady_run hs inputs) i).topics hnone]
    · exact topics_step (steady_run hs inputs) (hor.resolve_right hstopped)
  called inputs hend := by
    refine stop_mem_of_hasStopped hs (fun id hid => ?_) hend
    rw [job?, hj] at hid
    cases hid
  returned earlier later hreturned :=
    hasStopped_append.mpr (.inr (hasStopped_of_returned (steady_run hs earlier) hreturned))

/-- Make a demander on any network, with any settings.  It fails exactly if the settings are
    unusable or, where it takes part, a topic of one of its workers is taken.  A failure leaves the
    registrations as they were exactly if the settings are unusable or the topic of the first worker
    is taken; otherwise the topics of the workers before the first one whose topic is taken are left
    behind.  Success registers the topics of all workers, of which none was taken, if the demander
    takes part, and nothing if it does not; it holds them until it is stopped. -/
theorem failed_creation_is_clean_iff (settings : Settings) (site : Site)
    (listener : Topic → ClusterListener) (c : Cluster) :
    let before := c.network.registrations
    let made := create settings site (fun t c => c.listenOn site.node t (listener t)) c
    let after := made.1.network.registrations
    ((∃ cause, made.2 = .error cause) ↔
        settings.fault? ≠ none ∨
          settings.isActive = true ∧ ∃ t ∈ topicsFor settings, (site.node, t) ∈ before) ∧
      (∀ cause, made.2 = .error cause →
        (after = before ↔
          settings.fault? ≠ none ∨
            ∃ t, (topicsFor settings).head? = some t ∧ (site.node, t) ∈ before) ∧
        (settings.fault? = none → ∃ earlier t later,
          topicsFor settings = earlier ++ t :: later ∧
            (∀ u ∈ earlier, (site.node, u) ∉ before) ∧ (site.node, t) ∈ before ∧
            cause = .network (.duplicateHandler t.text) ∧
            after = before ++ registrationsOf site.node earlier)) ∧
      ∀ d, made.2 = .ok d →
        let own := registrationsOf site.node
          (if settings.isActive = true then topicsFor settings else [])
        after = before ++ own ∧ (∀ x ∈ own, x ∉ before) ∧ d.HoldsUntilStopped own := by
  intro before made after
  have h : Creation settings site c made := creation settings site listener c
  refine ⟨h.fails_iff, fun cause herror => ⟨h.clean_iff herror, h.left_behind herror⟩, ?_⟩
  intro d hok own
  have hcreate : create settings site (fun t c => c.listenOn site.node t (listener t)) c =
      (made.1, .ok d) := Prod.ext rfl hok
  obtain ⟨htopics, hfree, hafter⟩ := h.added hok
  have hown : registrationsOf site.node d.topics = own := by rw [htopics]
  have hholds := holdsUntilStopped (steady_create hcreate) (create_blank hcreate).2.2.1
  rw [node_create hcreate, hown] at hholds
  refine ⟨hown ▸ hafter, fun x hx => ?_, hholds⟩
  rw [← hown] at hx
  obtain ⟨t, ht, rfl⟩ := List.mem_map.mp hx
  exact hfree t ht

/-- A node where nobody listens yet. -/
def vacant : Cluster := { topology := ⟨1, 0⟩ }

/-- A node where somebody listens on the topic of the second worker. -/
def secondTaken : Cluster :=
  { vacant with network := { routes := [{ node := 2, topic := ⟨.demand, 0, 1⟩ }] } }

/-- A demander with two workers is made on such a node. -/
def twoWorkers (c : Cluster) : Cluster × Except Fault Demander :=
  create {} (solo 3).site (fun t c => c.listenOn (solo 3).site.node t (.demander 0 t.worker none)) c

theorem failed_creation_is_clean_iff_two_workers :
    (∃ cause, (twoWorkers secondTaken).2 = .error cause) ∧
      (twoWorkers secondTaken).1.network.registrations ≠ secondTaken.network.registrations ∧
      ∃ d, (twoWorkers vacant).2 = .ok d ∧
        (twoWorkers vacant).1.network.registrations =
          [(2, ⟨.demand, 0, 0⟩), (2, ⟨.demand, 0, 1⟩)] ∧
        (({ (twoWorkers vacant).1 with demanders := [d] }).step 0 .stop).network.registrations = [] := by
  obtain ⟨hfails, hclean, -⟩ := failed_creation_is_clean_iff {} (solo 3).site
    (fun t => .demander 0 t.worker none) secondTaken
  obtain ⟨-, -, hsucceeds⟩ := failed_creation_is_clean_iff {} (solo 3).site
    (fun t => .demander 0 t.worker none) vacant
  obtain ⟨cause, herror⟩ := hfails.mpr (.inr ⟨rfl, ⟨.demand, 0, 1⟩, by decide, by decide⟩)
  refine ⟨⟨cause, herror⟩, (hclean cause herror).1.not.mpr (by decide), ?_⟩
  obtain ⟨d, hok⟩ : ∃ d, (twoWorkers vacant).2 = .ok d := ⟨_, rfl⟩
  obtain ⟨hafter, -, hholds⟩ := hsucceeds d hok
  have hstop := hholds.gives { (twoWorkers vacant).1 with demanders := [d] } 0 [] .stop rfl
  cases hok
  exact ⟨_, rfl, hafter, (hstop ⟨rfl, .inl rfl⟩ id).trans (by decide)⟩

/-- A creation that fails at the second worker leaves the topic of the first one registered, though
    there is no demander. -/
theorem failed_creation_leaves_a_topic :
    (∃ cause, (twoWorkers secondTaken).2 = .error cause) ∧
      secondTaken.network.isRegistered 2 ⟨.demand, 0, 0⟩ = false ∧
      (twoWorkers secondTaken).1.network.isRegistered 2 ⟨.demand, 0, 0⟩ = true :=
  ⟨⟨_, rfl⟩, by decide, by decide⟩

end Demander

end Rebalance
