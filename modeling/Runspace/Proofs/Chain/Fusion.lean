import Runspace.Chain

/-!
# Fusion — which chains can be fused, and why the others cannot

The classes of the commands decide. They are looked at three times: for opaque commands, for the
pools of remote ones, and for relays that take in all records before the last remote one.

* `Chain.kinds`, `Chain.FirstAt`: the classes, and where one occurs first;
* `Chain.Fusible`: a chain that can be fused on a pool;
* `Rejection.Holds`, `Rejection.rank`: what a reason says of a chain, and which one is told first;
* **`Chain.firstMaterializing?_eq_some_iff`**: the last of the three looks;
* **`Chain.analyze_decides`**: the verdict on every chain.
-/

namespace Runspace

namespace Chain

/-! ## Classes by place -/

/-- The classes of the commands, in order. -/
def kinds (c : Chain) : List CommandClass := c.map Link.kind

/-- A class occurs at a place and at none before it. -/
def FirstAt (c : Chain) (k : CommandClass) (i : Nat) : Prop :=
  c.kinds[i]? = some k ∧ ∀ j < i, c.kinds[j]? ≠ some k

/-- A remote command comes after a place. -/
def RemoteAfter (c : Chain) (i : Nat) : Prop :=
  ∃ j q, i < j ∧ c.kinds[j]? = some (CommandClass.remote q)

/-- A chain that can be fused on a pool. -/
structure Fusible (c : Chain) (pool : PoolId) : Prop where
  two_le_length : 2 ≤ c.length
  known : .opaqueCommand ∉ c.kinds
  remote : .remote pool ∈ c.kinds
  pool_eq : ∀ q, .remote q ∈ c.kinds → q = pool
  flows : ∀ i, c.kinds[i]? = some (.relay .materializing) → ¬ c.RemoteAfter i

end Chain

/-! ## Reasons -/

namespace Rejection

/-- What a reason says of a chain. -/
def Holds (links : Chain) : Rejection → Prop
  | .tooShort n => n = links.length ∧ n < 2
  | .opaqueCommand i name =>
    links.FirstAt .opaqueCommand i ∧ links[i]?.map (·.command.name) = some name
  | .mixedTargets => ∃ q r, .remote q ∈ links.kinds ∧ .remote r ∈ links.kinds ∧ q ≠ r
  | .noRemote => ∀ q, .remote q ∉ links.kinds
  | .materializing i => links.FirstAt (.relay .materializing) i ∧ links.RemoteAfter i

/-- Of several reasons, the one with the lowest rank is told. -/
def rank : Rejection → Nat
  | .tooShort _ => 0
  | .opaqueCommand .. => 1
  | .mixedTargets => 2
  | .noRemote => 3
  | .materializing _ => 4

end Rejection

section Reasons

variable {c : Chain} {k : CommandClass} {i j : Nat} {pool : PoolId} {r s : Rejection}

theorem Chain.FirstAt.unique (hi : c.FirstAt k i) (hj : c.FirstAt k j) : i = j := by
  rcases Nat.lt_trichotomy i j with h | h | h
  · exact absurd hi.1 (hj.2 i h)
  · exact h
  · exact absurd hj.1 (hi.2 j h)

theorem Rejection.Holds.unique (hr : r.Holds c) (hs : s.Holds c) (h : r.rank = s.rank) : r = s := by
  cases r with
  | tooShort n =>
    cases s with
    | tooShort m => rw [hr.1, hs.1]
    | _ => cases h
  | opaqueCommand i name =>
    cases s with
    | opaqueCommand j name' =>
      obtain rfl := hr.1.unique hs.1
      rw [Option.some.inj (hr.2.symm.trans hs.2)]
    | _ => cases h
  | mixedTargets | noRemote => cases s <;> first | rfl | cases h
  | materializing i =>
    cases s with
    | materializing j => rw [hr.1.unique hs.1]
    | _ => cases h

theorem Chain.Fusible.not_holds (h : c.Fusible pool) (r : Rejection) : ¬ r.Holds c := by
  intro hr
  cases r with
  | tooShort n =>
    have := h.two_le_length
    have := hr.1
    have := hr.2
    omega
  | opaqueCommand i name => exact h.known (List.mem_of_getElem? hr.1.1)
  | mixedTargets =>
    obtain ⟨p, q, hp, hq, hne⟩ := hr
    exact hne ((h.pool_eq p hp).trans (h.pool_eq q hq).symm)
  | noRemote => exact hr pool h.remote
  | materializing i => exact h.flows i hr.1.1 hr.2

end Reasons

namespace Chain

variable {b c : Chain} {k : CommandClass} {i : Nat} {pool q : PoolId} {r : Rejection}
  {f : FusedChain}

/-! ## The three looks -/

theorem findIdx?_eq_some_iff : c.findIdx? (fun l => l.kind = k) = some i ↔ c.FirstAt k i := by
  have hmap : c.findIdx? (fun l => l.kind = k) = c.kinds.findIdx? (· = k) := by
    rw [kinds, List.findIdx?_map]
    rfl
  rw [hmap, List.findIdx?_eq_some_iff_getElem]
  constructor
  · rintro ⟨hi, hk, hbefore⟩
    refine ⟨List.getElem?_eq_some_iff.2 ⟨hi, by simpa using hk⟩, fun j hj hk' => ?_⟩
    obtain ⟨hlt, heq⟩ := List.getElem?_eq_some_iff.1 hk'
    exact absurd heq (by simpa using hbefore j hj)
  · rintro ⟨hk, hbefore⟩
    obtain ⟨hi, hk⟩ := List.getElem?_eq_some_iff.1 hk
    refine ⟨hi, by simpa using hk, fun j hj => ?_⟩
    have hne := hbefore j hj
    rw [List.getElem?_eq_getElem (Nat.lt_trans hj hi)] at hne
    simpa using hne

theorem findIdx?_eq_none_iff : c.findIdx? (fun l => l.kind = k) = none ↔ k ∉ c.kinds := by
  simp [kinds]

theorem pool?_eq_some : k.pool? = some q ↔ k = .remote q := by
  cases k <;> simp [CommandClass.pool?]

theorem mem_pools : q ∈ c.pools ↔ .remote q ∈ c.kinds := by
  simp [pools, kinds, pool?_eq_some]

/-- A chain is cut before its last remote command, if it has one. -/
theorem beforeLastRemote_cases (c : Chain) :
    c.beforeLastRemote = [] ∧ (∀ l ∈ c, l.kind.pool? = none) ∨
      ∃ l after, c = c.beforeLastRemote ++ l :: after ∧ l.kind.pool?.isSome ∧
        ∀ l ∈ after, l.kind.pool? = none := by
  unfold beforeLastRemote
  have hcut := List.takeWhile_append_dropWhile (p := fun l : Link => l.kind.pool?.isNone)
    (l := c.reverse)
  have hnone := List.all_takeWhile (p := fun l : Link => l.kind.pool?.isNone) (l := c.reverse)
  have hlast := List.head?_dropWhile_not (fun l : Link => l.kind.pool?.isNone) c.reverse
  simp only [List.all_eq_true, Option.isNone_iff_eq_none] at hnone
  generalize c.reverse.takeWhile (fun l => l.kind.pool?.isNone) = after at hcut hnone
  generalize c.reverse.dropWhile (fun l => l.kind.pool?.isNone) = upTo at hcut hlast
  cases upTo with
  | nil =>
    refine .inl ⟨rfl, fun l hl => hnone l ?_⟩
    rw [List.append_nil] at hcut
    exact hcut ▸ List.mem_reverse.2 hl
  | cons l before =>
    refine .inr ⟨l, after.reverse, ?_, by simpa using hlast, ?_⟩
    · rw [← List.reverse_reverse c, ← hcut]
      simp
    · exact fun l hl => hnone l (List.mem_reverse.1 hl)

theorem remoteAfter_iff : c.RemoteAfter i ↔ i < c.beforeLastRemote.length := by
  constructor
  · rintro ⟨j, q, hij, hj⟩
    obtain ⟨l, hlj, hlq⟩ := Option.map_eq_some_iff.1 (List.getElem?_map.symm.trans hj)
    have hremote : l.kind.pool? ≠ none := by simp [pool?_eq_some.2 hlq]
    rcases c.beforeLastRemote_cases with ⟨-, hnone⟩ | ⟨l', after, hc, -, hnone⟩
    · exact absurd (hnone l (List.mem_of_getElem? hlj)) hremote
    · generalize c.beforeLastRemote = b at hc ⊢
      subst hc
      refine Nat.lt_of_not_le fun hi => ?_
      -- what is found there comes after the last remote command
      rw [List.getElem?_append_right (by omega), List.getElem?_cons, if_neg (by omega)] at hlj
      exact hremote (hnone l (List.mem_of_getElem? hlj))
  · intro hi
    rcases c.beforeLastRemote_cases with ⟨hb, -⟩ | ⟨l, after, hc, hl, -⟩
    · rw [hb] at hi
      cases hi
    · obtain ⟨q, hq⟩ := Option.isSome_iff_exists.1 hl
      refine ⟨c.beforeLastRemote.length, q, hi, ?_⟩
      generalize c.beforeLastRemote = b at hc
      simp [hc, kinds, pool?_eq_some.1 hq]

theorem prefix_beforeLastRemote (c : Chain) : c.beforeLastRemote <+: c := by
  rcases c.beforeLastRemote_cases with ⟨hb, -⟩ | ⟨l, after, hc, -⟩
  · exact hb ▸ List.nil_prefix
  · exact ⟨l :: after, hc.symm⟩

theorem kinds_prefix_eq (h : b <+: c) (hi : i < b.length) : c.kinds[i]? = b.kinds[i]? := by
  obtain ⟨rest, rfl⟩ := h
  rw [kinds, List.map_append, List.getElem?_append_left (by simpa using hi)]
  rfl

theorem FirstAt.prefix_iff (h : b <+: c) : b.FirstAt k i ↔ c.FirstAt k i ∧ i < b.length := by
  constructor
  · rintro ⟨hk, hbefore⟩
    have hi : i < b.length := by simpa [kinds] using (List.getElem?_eq_some_iff.1 hk).1
    refine ⟨⟨kinds_prefix_eq h hi ▸ hk, fun j hj => ?_⟩, hi⟩
    rw [kinds_prefix_eq h (Nat.lt_trans hj hi)]
    exact hbefore j hj
  · rintro ⟨⟨hk, hbefore⟩, hi⟩
    refine ⟨kinds_prefix_eq h hi ▸ hk, fun j hj => ?_⟩
    rw [← kinds_prefix_eq h (Nat.lt_trans hj hi)]
    exact hbefore j hj

/-- **The relay that is found** is the first that takes in all records, if a remote command comes
after it. -/
theorem firstMaterializing?_eq_some_iff : c.firstMaterializing? = some i ↔
    c.FirstAt (.relay .materializing) i ∧ c.RemoteAfter i := by
  rw [firstMaterializing?, findIdx?_eq_some_iff, remoteAfter_iff]
  exact FirstAt.prefix_iff c.prefix_beforeLastRemote

theorem firstMaterializing?_eq_none_iff : c.firstMaterializing? = none ↔
    ∀ i, c.kinds[i]? = some (.relay .materializing) → ¬ c.RemoteAfter i := by
  rw [firstMaterializing?, findIdx?_eq_none_iff]
  simp only [remoteAfter_iff]
  constructor
  · intro h i hi hlt
    exact h (List.mem_of_getElem? (kinds_prefix_eq c.prefix_beforeLastRemote hlt ▸ hi))
  · intro h hmem
    obtain ⟨i, hi⟩ := List.mem_iff_getElem?.1 hmem
    have hlt : i < c.beforeLastRemote.length := by
      simpa [kinds] using (List.getElem?_eq_some_iff.1 hi).1
    exact h i (kinds_prefix_eq c.prefix_beforeLastRemote hlt ▸ hi) hlt

/-! ## The verdict -/

/-- A verdict on a chain: fused on the pool of its remote commands, or refused for the first reason
that holds. -/
inductive Verdict (c : Chain) : Except Rejection FusedChain → Prop where
  | fused {pool : PoolId} (h : c.Fusible pool) : Verdict c (.ok ⟨pool, c.map Link.command⟩)
  | refused {r : Rejection} (h : r.Holds c) (hfirst : ∀ s : Rejection, s.Holds c → r.rank ≤ s.rank) :
    Verdict c (.error r)

theorem one_le_rank (hlen : 2 ≤ c.length) (hr : r.Holds c) : 1 ≤ r.rank := by
  cases r with
  | tooShort n =>
    obtain ⟨rfl, hn⟩ := hr
    omega
  | _ => exact Nat.le_add_left 1 _

theorem two_le_rank (hlen : 2 ≤ c.length) (hknown : .opaqueCommand ∉ c.kinds) (hr : r.Holds c) :
    2 ≤ r.rank := by
  cases r with
  | tooShort n => exact absurd (one_le_rank hlen hr) (by simp [Rejection.rank])
  | opaqueCommand i name => exact absurd (List.mem_of_getElem? hr.1.1) hknown
  | _ => exact Nat.le_add_left 2 _

/-- Where all remote commands run on one pool, only a relay can be in the way. -/
theorem four_le_rank (hlen : 2 ≤ c.length) (hknown : .opaqueCommand ∉ c.kinds)
    (hremote : .remote pool ∈ c.kinds) (hpool : ∀ q, .remote q ∈ c.kinds → q = pool)
    (hr : r.Holds c) : 4 ≤ r.rank := by
  have htwo := two_le_rank hlen hknown hr
  cases r with
  | tooShort | opaqueCommand => simp [Rejection.rank] at htwo
  | mixedTargets =>
    obtain ⟨p, q, hp, hq, hne⟩ := hr
    exact absurd ((hpool p hp).trans (hpool q hq).symm) hne
  | noRemote => exact absurd hremote (hr pool)
  | materializing i => exact Nat.le_refl 4

/-- **The looks in their order come to the verdict.** -/
theorem verdict_analyze (c : Chain) : Verdict c c.analyze := by
  unfold analyze
  split
  · next hlen => exact .refused ⟨rfl, hlen⟩ fun s _ => Nat.zero_le _
  next hlen =>
  have hlen : 2 ≤ c.length := Nat.le_of_not_lt hlen
  split
  · next i hi =>
    have hfirst := findIdx?_eq_some_iff.1 hi
    refine .refused ⟨hfirst, ?_⟩ fun s => one_le_rank hlen
    obtain ⟨l, hl, -⟩ := Option.map_eq_some_iff.1 (List.getElem?_map.symm.trans hfirst.1)
    rw [nameAt, hl]
    rfl
  next hknown =>
  have hknown := findIdx?_eq_none_iff.1 hknown
  split
  · next hpools =>
    have hnone : ∀ q, .remote q ∉ c.kinds := fun q hq => by
      rw [← mem_pools, hpools] at hq
      cases hq
    refine .refused hnone fun s hs => ?_
    have htwo := two_le_rank hlen hknown hs
    cases s with
    | mixedTargets =>
      obtain ⟨q, -, hq, -⟩ := hs
      exact absurd hq (hnone q)
    | tooShort | opaqueCommand => simp [Rejection.rank] at htwo
    | _ => simp [Rejection.rank]
  next pool rest hpools =>
  have hremote : .remote pool ∈ c.kinds := mem_pools.1 (hpools ▸ List.mem_cons_self ..)
  split
  · next hmixed =>
    obtain ⟨q, hq, hne⟩ := List.any_eq_true.1 hmixed
    have hq : .remote q ∈ c.kinds := mem_pools.1 (hpools ▸ List.mem_cons_of_mem pool hq)
    exact .refused ⟨q, pool, hq, hremote, of_decide_eq_true hne⟩ fun s => two_le_rank hlen hknown
  next hsame =>
  have hpool : ∀ q, .remote q ∈ c.kinds → q = pool := by
    intro q hq
    rw [← mem_pools, hpools] at hq
    rcases List.mem_cons.1 hq with rfl | hq
    · rfl
    · have hne := List.any_eq_false.1 (Bool.not_eq_true _ ▸ hsame) q hq
      exact Decidable.not_not.1 fun h => hne (decide_eq_true h)
  split
  · next i hi =>
    exact .refused (firstMaterializing?_eq_some_iff.1 hi) fun s =>
      four_le_rank hlen hknown hremote hpool
  · next hflows =>
    exact .fused ⟨hlen, hknown, hremote, hpool, firstMaterializing?_eq_none_iff.1 hflows⟩

theorem commands_of_ok {f : FusedChain} (h : c.analyze = .ok f) :
    f.commands = c.map Link.command ∧ c.map Link.command ≠ [] := by
  have hverdict := verdict_analyze c
  rw [h] at hverdict
  cases hverdict with
  | fused hf =>
    refine ⟨rfl, fun hnil => ?_⟩
    have hlen := hf.two_le_length
    rw [List.map_eq_nil_iff.1 hnil] at hlen
    cases hlen

/-- **The verdict on every chain.**

A chain is fused exactly if it can be, on the pool of its remote commands and with all its commands
in order. Otherwise it is refused, for the first of the reasons that hold of it. The reason is given
whenever the chain is not fused, also to those who do not ask for it. -/
theorem analyze_decides (c : Chain) :
    (∀ f, c.analyze = .ok f ↔ c.Fusible f.pool ∧ f.commands = c.map Link.command) ∧
      (∀ r, c.analyze = .error r ↔ r.Holds c ∧ ∀ s : Rejection, s.Holds c → r.rank ≤ s.rank) ∧
      ∀ f, c.fuse? = some f ↔ c.analyze = .ok f := by
  have hfuse : ∀ f, c.fuse? = some f ↔ c.analyze = .ok f := fun f => by
    unfold fuse?
    cases c.analyze <;> simp [Except.toOption]
  refine ⟨fun f => ?_, fun r => ?_, hfuse⟩
  · have hverdict := c.verdict_analyze
    generalize c.analyze = verdict at hverdict ⊢
    cases hverdict with
    | @fused pool h =>
      constructor
      · rintro ⟨⟩
        exact ⟨h, rfl⟩
      · rintro ⟨hf, hcommands⟩
        rw [hf.pool_eq pool h.remote, ← hcommands]
    | @refused r h hfirst => exact ⟨nofun, fun hf => absurd h (hf.1.not_holds r)⟩
  · have hverdict := c.verdict_analyze
    generalize c.analyze = verdict at hverdict ⊢
    cases hverdict with
    | @fused pool h => exact ⟨nofun, fun hr => absurd hr.1 (h.not_holds r)⟩
    | @refused s h hfirst =>
      constructor
      · rintro ⟨⟩
        exact ⟨h, hfirst⟩
      · rintro ⟨hr, hr'⟩
        rw [h.unique hr (Nat.le_antisymm (hfirst r hr) (hr' s h))]

end Chain

end Runspace
