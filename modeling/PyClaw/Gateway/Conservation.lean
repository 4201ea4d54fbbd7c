import PyClaw.Gateway.Delivery

/-!
# Gateway.Conservation

No message disappears between the workers: `delivered_or_lost`.
-/

namespace PyClaw

namespace FeishuWorkers

/-! ## Nothing is lost unseen -/

variable {d : FeishuWorkers} {i : Nat} {h : Handling} {event : RoutedEvent} {ttlSeconds : Int}

/-- The event is on its way, was lost, or is processed. -/
def Accounted (d : FeishuWorkers) (event : RoutedEvent) : Prop :=
  d.OnItsWay event ∨ event ∈ d.lost ∨ ∃ since, (event.messageId, since) ∈ d.news

/-- What the deduplication knows is processed. -/
structure Remembers (d : FeishuWorkers) : Prop where
  cells : ∀ id c, d.server.cells (FeishuDedup.key {} id) = some c → ∃ since, (id, since) ∈ d.news
  seen : ∀ worker id since, d.seen worker id = some since → (id, since) ∈ d.news

theorem onItsWay_setState (hi : d.handlings[i]? = some h) (state : HandlingState) (hway : d.OnItsWay event) :
    (d.setState i h state).OnItsWay event ∨ state = .ended ∧ event = h.event := by
  rcases hway with ⟨h', hmem, rfl, hstate⟩ | hinbox
  · obtain ⟨j, hj⟩ := List.mem_iff_getElem?.mp hmem
    by_cases hij : i = j
    · subst hij
      obtain rfl : h = h' := Option.some.inj (hi.symm.trans hj)
      by_cases hended : state = .ended
      · exact .inr ⟨hended, rfl⟩
      · refine .inl (.inl ⟨{ h with state }, List.mem_iff_getElem?.mpr ⟨i, ?_⟩, rfl, hended⟩)
        have hlt := (List.getElem?_eq_some_iff.mp hi).1
        simp [setState, hlt]
    · refine .inl (.inl ⟨h', List.mem_iff_getElem?.mpr ⟨j, ?_⟩, rfl, hstate⟩)
      simp [setState, List.getElem?_set_ne hij, hj]
  · exact .inl (.inr hinbox)

theorem Accounted.setState (hacc : d.Accounted event) (hi : d.handlings[i]? = some h) {state : HandlingState}
    (hended : state = .ended → event = h.event → (d.setState i h state).Accounted event) :
    (d.setState i h state).Accounted event := by
  rcases hacc with hway | hlost | hnew
  · rcases onItsWay_setState hi state hway with hway | ⟨hstate, he⟩
    · exact .inl hway
    · exact hended hstate he
  · exact .inr (.inl hlost)
  · exact .inr (.inr hnew)

theorem Accounted.withServer (hacc : d.Accounted event) {server : KeySpace String String} :
    ({ d with server } : FeishuWorkers).Accounted event := hacc

theorem Accounted.publish (hacc : d.Accounted event) (state : RouteState) (fate : Delivery) (e : RoutedEvent) :
    (d.publish state fate e).Accounted event := by
  rcases d.publish_cases state fate e with he | ⟨owner, he⟩
  · rw [he]
    exact hacc
  · rw [he]
    rcases hacc with (hmem | ⟨worker, hin⟩) | hrest
    · exact .inl (.inl hmem)
    · refine .inl (.inr ⟨worker, ?_⟩)
      show event ∈ Function.update d.inbox owner (d.inbox owner ++ [e]) worker
      by_cases hworker : worker = owner
      · subst hworker
        rw [Function.update_self]
        exact List.mem_append_left _ hin
      · rw [Function.update_of_ne hworker]
        exact hin
    · exact .inr hrest

/-- One command of `route`: a handling ends with its event lost, or received by a subscriber. -/
theorem Accounted.route (hi : d.handlings[i]? = some h) (hacc : d.Accounted event) (state : RouteState)
    (fate : Delivery) (caught : Bool) : (d.route ttlSeconds i h state fate caught).Accounted event := by
  rw [FeishuWorkers.route]
  cases hroute : AffinityRegistry.route { workerId := h.worker, ttlSeconds } h.event.sessionKey d.subscribed
    state fate caught d.server with
  | mk next server =>
    have hi' : (d.publish state fate h.event).handlings[i]? = some h := by rw [publish_handlings, hi]
    have hacc' := hacc.publish state fate h.event
    dsimp only
    split
    · have hlose : ({ d.publish state fate h.event with
          server, lost := (d.publish state fate h.event).lost ++ [h.event] } : FeishuWorkers).Accounted event := by
        rcases hacc' with hway | hlost | hnew
        · exact .inl hway
        · exact .inr (.inl (List.mem_append_left _ hlost))
        · exact .inr (.inr hnew)
      exact hlose.setState hi' fun _ he =>
        .inr (.inl (List.mem_append_right _ (List.mem_singleton.mpr he)))
    · exact hacc'.withServer.setState hi' fun hstate => by cases hstate
    · obtain ⟨rfl, owner, rfl, hsub⟩ := route_forwarded (congrArg Prod.fst hroute)
      refine hacc'.withServer.setState hi' fun _ he => .inl (.inr ⟨owner, ?_⟩)
      show event ∈ (d.publish (.forwarding owner) .answered h.event).inbox owner
      have hreceives : (Delivery.answered.sent && d.subscribed owner) = true := hsub
      rw [FeishuWorkers.publish, if_pos hreceives, he]
      show h.event ∈ Function.update d.inbox owner (d.inbox owner ++ [h.event]) owner
      rw [Function.update_self]
      exact List.mem_append_right _ (List.mem_singleton.mpr rfl)
    · exact hacc'.withServer.setState hi' fun hstate => by cases hstate

/-! ## The deduplication -/

/-- A message that the deduplication lets pass is processed, and one that it holds back is already. -/
theorem Remembers.processed (hrem : d.Remembers) (worker : String) (id : String) (fate : Delivery) :
    let s : DedupState := { server := d.server, seen := d.seen worker, news := d.news }
    let s' := FeishuDedup.step {} s (.delivers id fate)
    (∃ since, (id, since) ∈ s'.news) ∧ (∀ r ∈ d.news, r ∈ s'.news) ∧
      (∀ id' c, s'.server.cells (FeishuDedup.key {} id') = some c → ∃ since, (id', since) ∈ s'.news) ∧
      ∀ id' since, s'.seen id' = some since → (id', since) ∈ s'.news := by
  intro s s'
  have hstep : FeishuDedup.Delivered {} s id fate s' := FeishuDedup.delivered_step
  generalize s' = s' at hstep
  have hserved : ∀ server, FeishuDedup.Served {} d.server id server → ∀ id' c,
      server.cells (FeishuDedup.key {} id') = some c → id' = id ∨ ∃ since, (id', since) ∈ d.news := by
    intro server hserved id' c hcell
    rcases hserved.cells id' with hsame | ⟨hid, -⟩
    · exact .inr (hrem.cells id' c (hsame ▸ hcell))
    · exact .inl hid
  cases hstep with
  | known hasked hlive =>
    obtain ⟨c, hc⟩ := Option.isSome_iff_exists.mp hlive
    exact ⟨hrem.cells id c (KeySpace.find_eq_some.mp hc).1, fun _ hr => hr, hrem.cells, hrem.seen worker⟩
  | sets hasked hfree =>
    refine ⟨⟨_, List.mem_append_right _ (List.mem_singleton.mpr rfl)⟩, fun r hr => List.mem_append_left _ hr,
      fun id' c hcell => ?_, fun id' since hin => List.mem_append_left _ (hrem.seen worker id' since hin)⟩
    rcases hserved _ (.set hfree) id' c hcell with rfl | ⟨since, hin⟩
    · exact ⟨_, List.mem_append_right _ (List.mem_singleton.mpr rfl)⟩
    · exact ⟨since, List.mem_append_left _ hin⟩
  | seen hasked hserver hseen =>
    obtain ⟨since, hsince⟩ := Option.isSome_iff_exists.mp hseen
    have hin := hrem.seen worker id since hsince
    refine ⟨⟨since, hin⟩, fun _ hr => hr, fun id' c hcell => ?_, hrem.seen worker⟩
    rcases hserved _ hserver id' c hcell with rfl | hin'
    · exact ⟨since, hin⟩
    · exact hin'
  | takes hasked hserver hunseen =>
    refine ⟨⟨_, List.mem_append_right _ (List.mem_singleton.mpr rfl)⟩, fun r hr => List.mem_append_left _ hr,
      fun id' c hcell => ?_, fun id' since hin => ?_⟩
    · rcases hserved _ hserver id' c hcell with rfl | ⟨since, hin⟩
      · exact ⟨_, List.mem_append_right _ (List.mem_singleton.mpr rfl)⟩
      · exact ⟨since, List.mem_append_left _ hin⟩
    · change Function.update s.seen id (some s.server.now) id' = some since at hin
      by_cases hid : id' = id
      · rw [hid, Function.update_self] at hin
        cases hin
        rw [hid]
        exact List.mem_append_right _ (List.mem_singleton.mpr rfl)
      · rw [Function.update_of_ne hid] at hin
        exact List.mem_append_left _ (hrem.seen worker id' since hin)

/-! ## Over a run -/

/-- What holds of every state that is reached. -/
structure Conserves (d : FeishuWorkers) : Prop where
  accounted : ∀ event ∈ d.arrived, d.Accounted event
  remembers : d.Remembers

theorem Accounted.appendHandling (hacc : d.Accounted event) (h' : Handling) :
    ({ d with handlings := d.handlings ++ [h'] } : FeishuWorkers).Accounted event := by
  rcases hacc with (⟨h, hmem, hh⟩ | hin) | hrest
  · exact .inl (.inl ⟨h, List.mem_append_left _ hmem, hh⟩)
  · exact .inl (.inr hin)
  · exact .inr hrest

theorem Conserves.start : ({} : FeishuWorkers).Conserves where
  accounted _ h := nomatch h
  remembers := ⟨fun _ _ h => (nomatch h), fun _ _ _ h => (nomatch h)⟩

theorem Remembers.of_eq (hrem : d.Remembers) {d' : FeishuWorkers} (hseen : d'.seen = d.seen)
    (hnews : d'.news = d.news) (hserver : SameDedup d.server d'.server) : d'.Remembers := by
  constructor
  · intro id c hcell
    rw [hserver.cells] at hcell
    rw [hnews]
    exact hrem.cells id c hcell
  · intro worker id since hin
    rw [hseen] at hin
    rw [hnews]
    exact hrem.seen worker id since hin

theorem Accounted.grow (hacc : d.Accounted event) {server : KeySpace String String}
    {seen : String → String → Option Int} {news : List (String × Int)} (hgrows : ∀ r ∈ d.news, r ∈ news) :
    ({ d with server, seen, news } : FeishuWorkers).Accounted event := by
  rcases hacc with hway | hlost | ⟨since, hin⟩
  · exact .inl hway
  · exact .inr (.inl hlost)
  · exact .inr (.inr ⟨since, hgrows _ hin⟩)

/-- The deduplication ends a handling whose message is processed. -/
theorem Conserves.dedup (hc : d.Conserves) (hi : d.handlings[i]? = some h) (fate : Delivery) :
    (d.dedup i h fate).Conserves := by
  obtain ⟨hnew, hgrows, hcells, hseen⟩ := hc.remembers.processed h.worker h.event.messageId fate
  constructor
  · intro event hevent
    exact ((hc.accounted event hevent).grow hgrows).setState hi fun _ he => .inr (.inr (he ▸ hnew))
  · refine ⟨hcells, fun worker id since hin => ?_⟩
    change Function.update d.seen h.worker _ worker id = some since at hin
    by_cases hworker : worker = h.worker
    · rw [hworker, Function.update_self] at hin
      exact hseen id since hin
    · rw [Function.update_of_ne hworker] at hin
      exact hgrows _ (hc.remembers.seen worker id since hin)

/-- A worker that ends has lost what it held. -/
theorem Conserves.crash (hc : d.Conserves) (worker : String) :
    (d.step ttlSeconds (.crashes worker)).Conserves := by
  constructor
  · intro event hevent
    rcases hc.accounted event hevent with (⟨h, hmem, rfl, hstate⟩ | ⟨worker', hin⟩) | hlost | hnew
    · by_cases hworker : h.worker = worker
      · refine .inr (.inl (List.mem_append_right _ (List.mem_map.mpr ⟨h, ?_, rfl⟩)))
        simp [underWay, hmem, hstate, hworker]
      · refine .inl (.inl ⟨h, List.mem_map.mpr ⟨h, hmem, ?_⟩, rfl, hstate⟩)
        rw [if_neg hworker]
    · by_cases hworker : worker' = worker
      · exact .inr (.inl (List.mem_append_left _ (List.mem_append_right _ (hworker ▸ hin))))
      · refine .inl (.inr ⟨worker', ?_⟩)
        show event ∈ Function.update d.inbox worker [] worker'
        rw [Function.update_of_ne hworker]
        exact hin
    · exact .inr (.inl (List.mem_append_left _ (List.mem_append_left _ hlost)))
    · exact .inr (.inr hnew)
  · refine ⟨hc.remembers.cells, fun worker' id since hin => ?_⟩
    change Function.update d.seen worker (fun _ => none) worker' id = some since at hin
    by_cases hworker : worker' = worker
    · rw [hworker, Function.update_self] at hin
      cases hin
    · rw [Function.update_of_ne hworker] at hin
      exact hc.remembers.seen worker' id since hin

theorem Conserves.step (hc : d.Conserves) (a : FeishuWorkersStep) : (d.step ttlSeconds a).Conserves := by
  cases a with
  | arrives worker event =>
    refine ⟨fun event' hevent => ?_, ⟨hc.remembers.cells, hc.remembers.seen⟩⟩
    rcases List.mem_append.mp hevent with hold | hnew
    · exact (hc.accounted event' hold).appendHandling _
    · rw [List.mem_singleton.mp hnew]
      exact .inl (.inl ⟨{ worker, event, forwarded := false },
        List.mem_append_right _ (List.mem_singleton.mpr rfl), rfl, fun h => nomatch h⟩)
  | routes i fate caught =>
    rw [FeishuWorkers.step]
    split
    · rename_i h hi
      split
      · rename_i state _
        obtain ⟨hseen, hnews, harrived, hserver⟩ := FeishuWorkers.route_frame ttlSeconds d i h state fate caught
        exact ⟨fun event hevent => (hc.accounted event (harrived ▸ hevent)).route hi state fate caught,
          hc.remembers.of_eq hseen hnews hserver⟩
      · exact hc
    · exact hc
  | dedups i fate =>
    rw [FeishuWorkers.step]
    split
    · rename_i h hi
      split
      · exact hc.dedup hi fate
      · exact hc
    · exact hc
  | consumes worker =>
    rw [FeishuWorkers.step]
    split
    · exact hc
    · split
      · exact hc
      · rename_i event rest hinbox
        refine ⟨fun event' hevent => ?_, ⟨hc.remembers.cells, hc.remembers.seen⟩⟩
        rcases hc.accounted event' hevent with (⟨h, hmem, hh⟩ | ⟨worker', hin⟩) | hrest
        · exact .inl (.inl ⟨h, List.mem_append_left _ hmem, hh⟩)
        · by_cases hworker : worker' = worker
          · rw [hworker, hinbox] at hin
            rcases List.mem_cons.mp hin with rfl | hin
            · exact .inl (.inl ⟨{ worker, event := event', forwarded := true },
                List.mem_append_right _ (List.mem_singleton.mpr rfl), rfl, fun h => nomatch h⟩)
            · refine .inl (.inr ⟨worker, ?_⟩)
              show event' ∈ Function.update d.inbox worker rest worker
              rw [Function.update_self]
              exact hin
          · refine .inl (.inr ⟨worker', ?_⟩)
            show event' ∈ Function.update d.inbox worker rest worker'
            rw [Function.update_of_ne hworker]
            exact hin
        · exact .inr hrest
  | renews sessionKey =>
    exact ⟨hc.accounted, hc.remembers.of_eq rfl rfl
      (sameDedup_pexpire (a := { workerId := "", ttlSeconds }) rfl sessionKey d.server)⟩
  | subscribes worker => exact ⟨hc.accounted, ⟨hc.remembers.cells, hc.remembers.seen⟩⟩
  | unsubscribes worker =>
    refine ⟨fun event hevent => ?_, ⟨hc.remembers.cells, hc.remembers.seen⟩⟩
    rcases hc.accounted event hevent with (hmem | ⟨worker', hin⟩) | hlost | hnew
    · exact .inl (.inl hmem)
    · by_cases hworker : worker' = worker
      · exact .inr (.inl (List.mem_append_right _ (hworker ▸ hin)))
      · refine .inl (.inr ⟨worker', ?_⟩)
        show event ∈ Function.update d.inbox worker [] worker'
        rw [Function.update_of_ne hworker]
        exact hin
    · exact .inr (.inl (List.mem_append_left _ hlost))
    · exact .inr (.inr hnew)
  | crashes worker => exact hc.crash worker
  | passes ms => exact ⟨hc.accounted, ⟨hc.remembers.cells, hc.remembers.seen⟩⟩

/-- Whatever Redis answers and whoever crashes: a message that has arrived is on its way, or it is recorded as
lost, or it is processed. -/
theorem delivered_or_lost (ttlSeconds : Int) (steps : List FeishuWorkersStep) :
    ∀ event ∈ (runFrom (step ttlSeconds) {} steps).arrived,
      (runFrom (step ttlSeconds) {} steps).Accounted event :=
  (runFrom_invariant (I := Conserves) (fun _ a hc => hc.step a) Conserves.start).accounted

/-- A message for a session of a worker whose subscription is then lost. -/
theorem delivered_or_lost_unsubscribed :
    Accounted (runFrom (step 300) {} [.subscribes "worker:b", .arrives "worker:b" ⟨"om_1", "feishu:cli:ou_1"⟩,
      .routes 0 .answered true, .routes 0 .answered true, .arrives "worker:a" ⟨"om_2", "feishu:cli:ou_1"⟩,
      .routes 1 .answered true, .routes 1 .answered true, .unsubscribes "worker:b"])
      ⟨"om_2", "feishu:cli:ou_1"⟩ :=
  delivered_or_lost 300 _ _ (by decide)

end FeishuWorkers

end PyClaw
