import PyClaw.Gateway.Delivery

/-!
# Gateway.ProcessedOnce

However often a message is sent and forwarded, the deduplication lets it pass once in its retention time
(`processed_once`), where Redis answers it.
-/

namespace PyClaw

namespace FeishuWorkers

variable {d : FeishuWorkers} {ttlSeconds : Int}

/-- As the deduplication sees it while Redis answers it. -/
structure Deduplicates (d : FeishuWorkers) : Prop where
  inv : FeishuDedup.Inv {} { server := d.server, news := d.news }
  seen : d.seen = fun _ _ => none
  once : FeishuDedup.NewAtMostOnce {} { server := d.server, news := d.news }

theorem FeishuDedupInv.server {s : DedupState} (h : FeishuDedup.Inv {} s) {server : KeySpace String String}
    (hsame : SameDedup s.server server) : FeishuDedup.Inv {} { s with server } where
  past r hr := hsame.now.symm ▸ h.past r hr
  recorded := h.recorded
  remembered r hr := by
    rcases h.remembered r hr with hin | ⟨v, deadline, hcell, hlong⟩
    · exact .inl hin
    · exact .inr ⟨v, deadline, (hsame.cells r.1).trans hcell, hlong⟩
  held id v deadline hcell := h.held id v deadline ((hsame.cells id).symm.trans hcell)

theorem Deduplicates.of_eq (hd : d.Deduplicates) {d' : FeishuWorkers} (hseen : d'.seen = d.seen)
    (hnews : d'.news = d.news) (hserver : SameDedup d.server d'.server) : d'.Deduplicates := by
  refine ⟨?_, hseen.trans hd.seen, ?_⟩
  · rw [hnews]
    exact FeishuDedupInv.server hd.inv hserver
  · rw [hnews]
    exact hd.once

/-- A delivery that Redis answers leaves the table of the worker empty. -/
theorem seen_of_answered (s : DedupState) (id : String) :
    (FeishuDedup.step {} s (.delivers id .answered)).seen = s.seen := by
  have hasked : FeishuDedup.answers {} .answered = true := by decide
  have hstep : FeishuDedup.Delivered {} s id .answered (FeishuDedup.step {} s (.delivers id .answered)) :=
    FeishuDedup.delivered_step
  generalize FeishuDedup.step {} s (.delivers id .answered) = s' at hstep
  cases hstep with
  | known _ _ => rfl
  | sets _ _ => rfl
  | seen hnot _ _ => exact absurd (hasked.symm.trans hnot) (by decide)
  | takes hnot _ _ => exact absurd (hasked.symm.trans hnot) (by decide)

theorem Deduplicates.dedup (hd : d.Deduplicates) (i : Nat) (h : Handling) :
    (d.dedup i h .answered).Deduplicates := by
  have hstate : ({ server := d.server, seen := d.seen h.worker, news := d.news } : DedupState) =
      { server := d.server, news := d.news } := by rw [hd.seen]
  have hright : FeishuDedup.AsksTheRight {} { server := d.server, news := d.news }
      (.delivers h.event.messageId .answered) := by
    rw [FeishuDedup.AsksTheRight, if_pos (by decide)]
    exact .inr fun since hin => by cases hin
  have hseen := seen_of_answered { server := d.server, news := d.news } h.event.messageId
  have hinv := hd.inv.step (.delivers h.event.messageId .answered)
  have honce := (FeishuDedup.asksTheRight_iff hd.inv hd.once _).mp hright
  rw [FeishuWorkers.dedup, hstate]
  generalize FeishuDedup.step {} { server := d.server, news := d.news }
    (.delivers h.event.messageId .answered) = s' at hseen hinv honce
  obtain ⟨server, seen, news⟩ := s'
  obtain rfl : seen = fun _ => none := hseen
  refine ⟨hinv, ?_, honce⟩
  show Function.update d.seen h.worker (fun _ => none) = fun _ _ => none
  rw [hd.seen, Function.update_eq_self_iff]

theorem Deduplicates.step (hd : d.Deduplicates) (a : FeishuWorkersStep) (ha : DedupAnswered a) :
    (d.step ttlSeconds a).Deduplicates := by
  cases a with
  | arrives worker event => exact hd.of_eq rfl rfl (.refl _)
  | routes i fate caught =>
    rw [FeishuWorkers.step]
    split
    · rename_i h hi
      split
      · rename_i state _
        obtain ⟨hseen, hnews, -, hserver⟩ := FeishuWorkers.route_frame ttlSeconds d i h state fate caught
        exact hd.of_eq hseen hnews hserver
      · exact hd
    · exact hd
  | dedups i fate =>
    obtain rfl : fate = .answered := ha
    rw [FeishuWorkers.step]
    split
    · split
      · exact hd.dedup i _
      · exact hd
    · exact hd
  | consumes worker =>
    rw [FeishuWorkers.step]
    split
    · exact hd
    · split
      · exact hd
      · exact hd.of_eq rfl rfl (.refl _)
  | renews sessionKey =>
    exact hd.of_eq rfl rfl (sameDedup_pexpire (a := { workerId := "", ttlSeconds }) rfl sessionKey d.server)
  | subscribes worker => exact hd.of_eq rfl rfl (.refl _)
  | unsubscribes worker => exact hd.of_eq rfl rfl (.refl _)
  | crashes worker =>
    refine hd.of_eq ?_ rfl (.refl _)
    show Function.update d.seen worker (fun _ => none) = d.seen
    rw [hd.seen, Function.update_eq_self_iff]
  | passes ms => exact ⟨FeishuDedup.Inv.pass hd.inv ms, hd.seen, hd.once⟩

/-- As long as the deduplication gets its answers, a message is processed at most once in the retention time,
whatever becomes of the other commands and wherever the message is forwarded. -/
theorem processed_once (ttlSeconds : Int) (steps : List FeishuWorkersStep)
    (h : ∀ a ∈ steps, DedupAnswered a) :
    (runFrom (step ttlSeconds) {} steps).news.Pairwise fun a b => a.1 = b.1 → 43200000 ≤ b.2 - a.2 := by
  have halong : ∀ d : FeishuWorkers, Along (step ttlSeconds) (fun _ a => DedupAnswered a) d steps := by
    induction steps with
    | nil => exact fun _ => trivial
    | cons a steps ih =>
      exact fun d => ⟨h a List.mem_cons_self, ih (fun b hb => h b (List.mem_cons_of_mem _ hb)) _⟩
  exact (Along.invariant (I := Deduplicates) (fun d a hd ha => hd.step a ha)
    ⟨FeishuDedup.Inv.start, rfl, by simp [FeishuDedup.NewAtMostOnce]⟩ (halong {})).once

/-- A forward whose answer is lost: both workers take the message up. -/
theorem processed_once_forwardedTwice :
    (runFrom (step 300) {} [.subscribes "worker:b", .arrives "worker:b" ⟨"om_1", "feishu:cli:ou_1"⟩,
      .routes 0 .answered true, .routes 0 .answered true, .dedups 0 .answered,
      .arrives "worker:a" ⟨"om_2", "feishu:cli:ou_1"⟩, .routes 1 .answered true, .routes 1 .unanswered true,
      .consumes "worker:b", .dedups 1 .answered, .routes 2 .answered true, .routes 2 .answered true,
      .dedups 2 .answered]).news.Pairwise fun a b => a.1 = b.1 → 43200000 ≤ b.2 - a.2 :=
  processed_once 300 _ (by decide)

end FeishuWorkers

end PyClaw
