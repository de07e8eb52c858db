import Vicinity.Proofs.Resolver.Questions

/-!
# Transcripts

A provider that keeps a list of the questions put to it writes a transcript of a computation. Here a
computation is proved to put certain questions about positions by a rule for each way to build
computations; the rule for two computations, one after the other, proves the second one with the
transcript of the first in hand.

## What is proved

* `Asks.pure`, `Asks.ask`, `Asks.of_alike`: computations that put no question about a position, or one.
* `Asks.bind`: one computation and then another that depends on its answer.
-/

namespace Vicinity.Resolver

variable {σ α β : Type}

/-- From a state with `inv`, whatever has been asked before, a computation leads to a state with `inv` and
answers alike if the provider keeps a list of the questions, and `post` holds of its answer and of the
questions about positions that it puts. -/
def Asks (inv : ResolverState σ → Prop) (m : ResolverM σ α)
    (m' : ResolverM (σ × List ProviderCall) α) (post : α → List ProviderCall → Prop) : Prop :=
  ∀ s, inv s → ∀ calls, ∃ more,
    m' (s.recorded calls) = ((m s).1, (m s).2.recorded (calls ++ more)) ∧ inv (m s).2 ∧
      post (m s).1 (more.filter ProviderCall.isAboutPosition)

namespace Asks

variable {inv : ResolverState σ → Prop} {m : ResolverM σ α}
  {m' : ResolverM (σ × List ProviderCall) α} {post : α → List ProviderCall → Prop}

theorem pure {a : α} (h : post a []) : Asks inv (Pure.pure a) (Pure.pure a) post :=
  fun _ hs _ => ⟨[], by rw [List.append_nil]; rfl, hs, h⟩

/-- A computation that may put no question about a position puts none. -/
theorem of_alike {r : Resolver σ} (h : Alike r r.provider.recording (fun _ => 0) m m')
    (hm : ∀ s, inv s → post (m s).1 [] ∧ inv (m s).2) : Asks inv m m' post := by
  intro s hs calls
  obtain ⟨more, hrun, hcount⟩ := h.recording s calls
  obtain ⟨hpost, hinv⟩ := hm s hs
  refine ⟨more, hrun, hinv, ?_⟩
  rw [filter_isAboutPosition_eq_nil hcount]
  exact hpost

/-- A question about a position. -/
theorem ask {p : Provider σ} {what : Lookup} {path : String} {position : Position}
    {post : List Location → List ProviderCall → Prop}
    (h : ∀ s, inv s →
      post (p.locations what path position s.world).1 [.locations what path position] ∧
        inv ⟨(p.locations what path position s.world).2, s.texts⟩) :
    Asks inv (.ask (p.locations what path position)) (.ask (p.recording.locations what path position))
      post := by
  intro s hs calls
  refine ⟨[.locations what path position], ?_, (h s hs).2, (h s hs).1⟩
  exact congrArg (fun x => (x.1, (⟨x.2, s.texts⟩ : ResolverState _)))
    (locations_recording p what path position s.world calls)

theorem mono {post' : α → List ProviderCall → Prop} (hm : Asks inv m m' post)
    (h : ∀ a asked, post a asked → post' a asked) : Asks inv m m' post' := by
  intro s hs calls
  obtain ⟨more, hrun, hinv, hpost⟩ := hm s hs calls
  exact ⟨more, hrun, hinv, h _ _ hpost⟩

/-- **One computation and then another** that depends on its answer. -/
theorem bind {f : α → ResolverM σ β} {f' : α → ResolverM (σ × List ProviderCall) β}
    {last : β → List ProviderCall → Prop} (hm : Asks inv m m' post)
    (hf : ∀ a asked, post a asked → Asks inv (f a) (f' a) fun b more => last b (asked ++ more)) :
    Asks inv (m >>= f) (m' >>= f') last := by
  intro s hs calls
  obtain ⟨asked, hrun, hinv, hpost⟩ := hm s hs calls
  obtain ⟨more, hrun', hinv', hlast⟩ := hf _ _ hpost _ hinv (calls ++ asked)
  refine ⟨asked ++ more, ?_, hinv', ?_⟩
  · simp only [Bind.bind, StateT.bind, hrun]
    rw [← List.append_assoc]
    exact hrun'
  · rw [List.filter_append]
    exact hlast

end Asks

end Vicinity.Resolver
