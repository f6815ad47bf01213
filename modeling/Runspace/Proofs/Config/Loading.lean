import Runspace.Channel.Connection
import Runspace.Pool.Lifecycle
import Runspace.Proofs.Json.RoundTrip
import Runspace.Proofs.Message.Payloads

/-!
# Loading — configurations read from texts that leave fields out

A text may leave out single sizes and lists of names, or whole sections, may list what it says in
any order, and may say more than a configuration has. What it leaves out is as it is by default.
What is loaded can be used: no check that is made later, while a pool is opened, fails.

* `Json.Sparse`, **`Json.Sparse.fields?`**: a record written without some of its fields, and what
  is read of each;
* `Config.without`, `Config.Form`, **`Config.ofJson?_of_form`**: a configuration without some of
  its fields, and the texts that say it;
* `PoolOptions.Usable`, **`PoolOptions.validate_eq_ok_iff`**: the sizes that can be used;
* **`Config.read_loads`**: what is loaded from each text, and that it can be used.
-/

namespace Runspace

/-! ## Records without some of their fields -/

theorem mapM_eq_some_map {α β : Type} {f : α → Option β} {g : α → β} {as : List α}
    (h : ∀ a ∈ as, f a = some (g a)) : as.mapM f = some (as.map g) := by
  induction as with
  | nil => rfl
  | cons a as ih =>
    obtain ⟨ha, has⟩ := List.forall_mem_cons.1 h
    simp [ha, ih has]

namespace Json

/-- The members of an object. -/
def members : Json → List (String × Json)
  | .object ms => ms
  | _ => []

/-- Strings, and the integers that stay integers. -/
def IsPlain : Json → Prop
  | .string _ | .number (.natural _) | .number (.negative _) => True
  | _ => False

/-- A record is written without some of its fields: the others in any order, among members with some
property that it does not have. -/
def Sparse (P : Json → Prop) (full : List (String × Json)) (gone : List String)
    (ms : List (String × Json)) : Prop :=
  ∃ others, (∀ m ∈ others, m.1 ∉ full.map (·.1) ∧ P m.2) ∧
    ms.Perm (full.filter (·.1 ∉ gone) ++ others)

section Sparse

variable {P Q : Json → Prop} {full ms others : List (String × Json)} {gone : List String}
  {k : String} {j : Json} {n : Nat}

theorem valuesOf_append (k : String) (ms others : List (String × Json)) :
    valuesOf k (ms ++ others) = valuesOf k ms ++ valuesOf k others := by
  simp [valuesOf]

theorem valuesOf_of_forall_ne (h : ∀ m ∈ ms, m.1 ≠ k) : valuesOf k ms = [] := by
  rw [valuesOf, List.filter_eq_nil_iff.2 fun m hm => by simpa using h m hm, List.map_nil]

theorem valuesOf_of_mem (hn : (full.map (·.1)).Nodup) (hm : (k, j) ∈ full) :
    valuesOf k full = [j] := by
  induction full with
  | nil => cases hm
  | cons m full ih =>
    obtain ⟨k', j'⟩ := m
    rw [List.map_cons, List.nodup_cons] at hn
    rcases List.mem_cons.1 hm with heq | hm
    · cases heq
      exact valuesOf_cons_self fun m hm heq => hn.1 (List.mem_map.2 ⟨m, hm, heq⟩)
    · have hne : k' ≠ k := fun heq => hn.1 (List.mem_map.2 ⟨(k, j), hm, heq.symm⟩)
      rw [valuesOf, List.filter_cons_of_neg (by simpa using hne)]
      exact ih hn.2 hm

theorem Sparse.valuesOf (h : Sparse P full gone ms) (hn : (full.map (·.1)).Nodup)
    (hm : (k, j) ∈ full) : valuesOf k ms = if k ∈ gone then [] else [j] := by
  obtain ⟨others, hothers, hperm⟩ := h
  have hnone : Json.valuesOf k others = [] :=
    valuesOf_of_forall_ne fun m hm' heq => (hothers m hm').1 (heq ▸ List.mem_map_of_mem hm)
  have hkept : Json.valuesOf k (full.filter (·.1 ∉ gone)) = if k ∈ gone then [] else [j] := by
    split
    · next hk =>
      refine valuesOf_of_forall_ne fun m hm' heq => ?_
      exact of_decide_eq_true (List.mem_filter.1 hm').2 (heq ▸ hk)
    · next hk =>
      rw [← valuesOf_of_mem hn hm, Json.valuesOf, Json.valuesOf, List.filter_filter]
      refine congrArg (List.map fun m : String × Json => m.2) (List.filter_congr fun m _ => ?_)
      by_cases heq : m.1 = k
      · simp [heq, hk]
      · simp [heq]
  have hvalues : (Json.valuesOf k ms).Perm (if k ∈ gone then [] else [j]) := by
    have hall : (Json.valuesOf k ms).Perm _ := (hperm.filter _).map _
    rwa [← Json.valuesOf, valuesOf_append, hkept, hnone, List.append_nil] at hall
  split at hvalues
  · next hk =>
    rw [if_pos hk]
    exact hvalues.eq_nil
  · next hk =>
    rw [if_neg hk]
    exact hvalues.eq_singleton

/-- **What is read of each field of a record that is written without some of them.** -/
theorem Sparse.fields? (h : Sparse P full gone ms) (names : List String)
    (hnames : names = full.map (·.1)) (hn : names.Nodup) : (object ms).fields? names =
      some (full.map fun m => if m.1 ∈ gone then none else some m.2) := by
  rw [hnames] at hn ⊢
  rw [fields?_object, List.mapM_map]
  refine mapM_eq_some_map fun m hm => ?_
  rw [Function.comp_apply, atMostOnce?, h.valuesOf hn hm]
  by_cases hk : m.1 ∈ gone
  · rw [if_pos hk, if_pos hk]
  · rw [if_neg hk, if_neg hk]

theorem Sparse.mono (h : Sparse P full gone ms) (hPQ : ∀ j, P j → Q j) : Sparse Q full gone ms := by
  obtain ⟨others, hothers, hperm⟩ := h
  exact ⟨others, fun m hm => ⟨(hothers m hm).1, hPQ m.2 (hothers m hm).2⟩, hperm⟩

theorem Sparse.forall_mem (h : Sparse P full gone ms) (hfull : ∀ m ∈ full, P m.2) :
    ∀ m ∈ ms, P m.2 := by
  obtain ⟨others, hothers, hperm⟩ := h
  intro m hm
  rcases List.mem_append.1 (hperm.subset hm) with hm | hm
  · exact hfull m (List.mem_filter.1 hm).1
  · exact (hothers m hm).2

theorem IsPlain.within (h : j.IsPlain) (n : Nat) : j.Within n := by
  cases j with
  | string s => exact within_string s n
  | number k =>
    cases k with
    | natural | negative => exact ⟨rfl, Nat.zero_le n⟩
    | double => cases h
  | _ => cases h

end Sparse

end Json

/-! ## Sections -/

section Sections

variable {P : Json → Prop} {o : PoolOptions} {r : RelayNames} {ms : List (String × Json)}
  {gone : List String} {k : String}

/-- All sizes are machine words. -/
structure PoolOptions.FitsWord (o : PoolOptions) : Prop where
  minRunspaces_lt : o.minRunspaces < UInt64.size
  maxRunspaces_lt : o.maxRunspaces < UInt64.size
  maxFragmentSize_lt : o.maxFragmentSize < UInt64.size
  maxMessageSize_lt : o.maxMessageSize < UInt64.size

/-- Options in which some fields are as they are by default. -/
def PoolOptions.without (o : PoolOptions) (gone : List String) : PoolOptions :=
  let d : PoolOptions := {}
  { minRunspaces := if "minRunspaces" ∈ gone then d.minRunspaces else o.minRunspaces
    maxRunspaces := if "maxRunspaces" ∈ gone then d.maxRunspaces else o.maxRunspaces
    maxFragmentSize := if "maxFragmentSize" ∈ gone then d.maxFragmentSize else o.maxFragmentSize
    maxMessageSize := if "maxMessageSize" ∈ gone then d.maxMessageSize else o.maxMessageSize }

/-- Relay names in which some fields are as they are by default. -/
def RelayNames.without (r : RelayNames) (gone : List String) : RelayNames :=
  let d : RelayNames := {}
  { streaming := if "streamingRelays" ∈ gone then d.streaming else r.streaming
    materializing := if "materializingRelays" ∈ gone then d.materializing else r.materializing }

theorem sizeOr?_ofNat {n : Nat} (h : n < UInt64.size) (d : Nat) :
    sizeOr? d (if k ∈ gone then none else some (.ofNat n)) =
      some (if k ∈ gone then d else n) := by
  split
  · rfl
  · have hn : (UInt64.ofNat n).toNat = n := Nat.mod_eq_of_lt h
    rw [sizeOr?, Json.ofNat, Json.natural?, hn, if_pos (Nat.le_of_lt_succ h)]

theorem namesOr?_namesToJson (d names : List String) :
    namesOr? d (if k ∈ gone then none else some (namesToJson names)) =
      some (if k ∈ gone then d else names) := by
  split
  · rfl
  · rw [namesOr?, namesToJson, Json.elements?, Option.bind_some, List.mapM_map]
    exact mapM_of_inverse (fun _ => rfl) names

theorem sectionOr?_some {α : Type} {decode : Json → Option α} {j : Json} {a : α}
    (h : decode j = some a) (d : α) :
    Config.sectionOr? d decode (if k ∈ gone then none else some j) =
      some (if k ∈ gone then d else a) := by
  split
  · rfl
  · exact h

theorem PoolOptions.ofJson?_of_sparse (h : Json.Sparse P o.toJson.members gone ms)
    (hw : o.FitsWord) : ofJson? (.object ms) = some (o.without gone) := by
  obtain ⟨hlo, hhi, hfragment, hmessage⟩ := hw
  have hfields := h.fields?
    ["minRunspaces", "maxRunspaces", "maxFragmentSize", "maxMessageSize"] rfl (by decide)
  rw [ofJson?, hfields]
  simp [toJson, Json.members, sizeOr?_ofNat, hlo, hhi, hfragment, hmessage, without]

theorem RelayNames.ofJson?_of_sparse (h : Json.Sparse P r.toJson.members gone ms) :
    ofJson? (.object ms) = some (r.without gone) := by
  have hfields := h.fields? ["streamingRelays", "materializingRelays"] rfl (by decide)
  rw [ofJson?, hfields]
  simp [toJson, Json.members, namesOr?_namesToJson, without]

end Sections

/-! ## Sizes that can be used -/

namespace PoolOptions

/-- Sizes that can be used. -/
structure Usable (o : PoolOptions) : Prop where
  one_le : 1 ≤ o.minRunspaces
  min_le_max : o.minRunspaces ≤ o.maxRunspaces
  max_lt : o.maxRunspaces < 2 ^ 32
  le_fragment : 64 ≤ o.maxFragmentSize
  fragment_le : o.maxFragmentSize ≤ 16 * 2 ^ 20
  message_pos : 1 ≤ o.maxMessageSize

variable {o : PoolOptions}

/-- **The sizes that pass the check are those that can be used.** -/
theorem validate_eq_ok_iff : o.validate = .ok () ↔ o.Usable := by
  have hsize : validFragmentSize o.maxFragmentSize = true ↔
      64 ≤ o.maxFragmentSize ∧ o.maxFragmentSize ≤ 16 * 2 ^ 20 := by
    rw [validFragmentSize, Bool.and_eq_true, decide_eq_true_eq, decide_eq_true_eq]
    exact Iff.rfl
  constructor
  · intro h
    unfold validate at h
    split at h
    · cases h
    next hbounds =>
    split at h
    · cases h
    next hwide =>
    split at h
    · cases h
    next hfragment =>
    split at h
    · cases h
    next hmessage =>
    rw [Decidable.not_not, hsize] at hfragment
    rw [maxWireCount] at hwide
    exact ⟨by omega, by omega, by omega, hfragment.1, hfragment.2, by omega⟩
  · intro h
    have hbounds : ¬ (o.minRunspaces < 1 ∨ o.maxRunspaces < o.minRunspaces) := by
      have := h.one_le
      have := h.min_le_max
      omega
    have hwide : ¬ maxWireCount < o.maxRunspaces := Nat.not_lt.2 (Nat.le_of_lt_succ h.max_lt)
    have hfragment := hsize.2 ⟨h.le_fragment, h.fragment_le⟩
    have hmessage : o.maxMessageSize ≠ 0 := Nat.ne_of_gt h.message_pos
    rw [validate, if_neg hbounds, if_neg hwide, if_neg (not_not_intro hfragment), if_neg hmessage]

/-- What the check says of other sizes. -/
theorem validate_error {f : Fault} (h : o.validate = .error f) : ∃ a, f = .invalidArgument a := by
  unfold validate at h
  repeat' split at h
  all_goals cases h
  all_goals exact ⟨_, rfl⟩

theorem Usable.wireCount (h : o.Usable) {n : Nat} (hn : n ≤ o.maxRunspaces) :
    wireCount n = .ok (UInt32.ofNat n) ∧ (UInt32.ofNat n).toNat = n :=
  have hlt : n < 2 ^ 32 := Nat.lt_of_le_of_lt hn h.max_lt
  ⟨if_neg (Nat.not_lt.2 (Nat.le_of_lt_succ hlt)), Nat.mod_eq_of_lt hlt⟩

theorem Usable.splitter (h : o.Usable) :
    Splitter.new? o.maxFragmentSize = some { maxPayload := o.maxFragmentSize } := by
  have hle : minFragmentPayload ≤ o.maxFragmentSize := h.le_fragment
  have hge : o.maxFragmentSize ≤ maxFragmentPayload := h.fragment_le
  simp [Splitter.new?, validFragmentSize, hle, hge]

theorem Usable.connection (h : o.Usable) (sink : Sink) :
    ∃ c, Connection.start o.maxFragmentSize o.maxMessageSize sink = .ok c := by
  rw [Connection.start, h.splitter]
  exact ⟨_, rfl⟩

theorem Usable.beginOpen (h : o.Usable) (id : PoolId) :
    (Pool.new id o).beginOpen.2 = .ok () := by
  have hready : (o.validate.bind fun () => o.wireBounds) =
      .ok (UInt32.ofNat o.minRunspaces, UInt32.ofNat o.maxRunspaces) := by
    rw [validate_eq_ok_iff.2 h, Except.bind, wireBounds, (h.wireCount h.min_le_max).1,
      (h.wireCount (Nat.le_refl _)).1]
    rfl
  have hoptions : (Pool.new id o).options = o := rfl
  rw [Pool.beginOpen, hoptions, hready]
  rfl

end PoolOptions

/-! ## Configurations -/

namespace Config

variable {P : Json → Prop} {c : Config} {gone : List String} {j : Json}

/-- A configuration in which some sections and fields are as they are by default. -/
def without (c : Config) (gone : List String) : Config where
  pool := if "pool" ∈ gone then {} else c.pool.without gone
  batching := if "batching" ∈ gone then {} else c.batching.without gone

/-- The texts that say a configuration without some of its sections and fields, and may say more, in
members whose values have some property. -/
inductive Form (P : Json → Prop) (c : Config) (gone : List String) : Json → Prop where
  | intro {pool batching top : List (String × Json)}
    (hpool : Json.Sparse P c.pool.toJson.members gone pool)
    (hbatching : Json.Sparse P c.batching.toJson.members gone batching)
    (htop : Json.Sparse P [("pool", .object pool), ("batching", .object batching)] gone top) :
    Form P c gone (.object top)

/-- **What is read of a configuration is all that its text does not leave out.** -/
theorem ofJson?_of_form (h : Form P c gone j) (hw : c.pool.FitsWord) :
    ofJson? j = some (c.without gone) := by
  obtain ⟨hpool, hbatching, htop⟩ := h
  have hfields := htop.fields? ["pool", "batching"] rfl (by decide)
  rw [ofJson?, hfields]
  simp [sectionOr?_some (PoolOptions.ofJson?_of_sparse hpool hw),
    sectionOr?_some (RelayNames.ofJson?_of_sparse hbatching), without]

theorem read_of_ofJson? {text : String} (h : readText? ofJson? text = some c) :
    read text = c.pool.validate.map fun () => c := by
  rw [read, h]
  dsimp only
  cases c.pool.validate <;> rfl

theorem validate_of_read {text : String} (h : read text = .ok c) : c.pool.validate = .ok () := by
  unfold read at h
  split at h
  · cases h
  · split at h
    · next hvalid =>
      cases h
      exact hvalid
    · cases h

theorem Form.within (h : Form Json.IsPlain c gone j) : j.Within maxDepth := by
  obtain ⟨hpool, hbatching, htop⟩ := h
  have hplain : ∀ (n : Nat) (j : Json), j.IsPlain → j.Within n := fun n _ hj => hj.within n
  have hpool' := (hpool.mono (hplain 1)).forall_mem (by simp [PoolOptions.toJson, Json.members])
  have hbatching' := (hbatching.mono (hplain 1)).forall_mem
    (by simp [RelayNames.toJson, Json.members, namesToJson])
  have htop' := (htop.mono (hplain 2)).forall_mem (List.forall_mem_cons.2
    ⟨Json.within_object.2 hpool', List.forall_mem_singleton.2 (Json.within_object.2 hbatching')⟩)
  exact ⟨(Json.within_object.2 htop').1, Nat.le_trans (Json.within_object.2 htop').2 (by decide)⟩

theorem form_toJson (P : Json → Prop) (c : Config) : Form P c [] c.toJson := by
  have hall : ∀ full : List (String × Json), Json.Sparse P full [] full := by
    intro full
    refine ⟨[], nofun, ?_⟩
    rw [List.append_nil, List.filter_eq_self.2 fun m _ => by simp]
  exact .intro (hall _) (hall _) (hall _)

theorem without_nil (c : Config) : c.without [] = c := by
  simp [without, PoolOptions.without, RelayNames.without]

/-- **Loading a configuration.**

Of a configuration whose sizes are machine words, a text may leave out fields or whole sections,
list the others in any order and say more in between. Then the configuration is loaded as it is, but
with what the text leaves out as it is by default, unless its sizes cannot be used, which is told.
This is so for all texts that say this in any way, and in particular for the text that is written,
if only strings and integers are said in addition. What is written of a configuration says it.

Whatever the text, if something is loaded its sizes can be used: a pool with them begins to open,
its runspace bounds stand on the wire as they are, and a connection with its sizes starts. -/
theorem read_loads :
    (∀ (c : Config) (gone : List String), c.pool.FitsWord →
      let left := c.without gone
      (∀ (text : String) (j : Json), Form (fun _ => True) c gone j →
        Json.read? text.toList = some j → read text = left.pool.validate.map fun () => left) ∧
      ∀ j, Form Json.IsPlain c gone j →
        read j.toText = left.pool.validate.map fun () => left) ∧
    (∀ c : Config, c.pool.FitsWord → c.pool.validate = .ok () → read c.toJson.toText = .ok c) ∧
    (∀ o : PoolOptions, o.validate = .ok () ∨ ∃ a, o.validate = .error (.invalidArgument a)) ∧
    ∀ (text : String) (c : Config), read text = .ok c →
      c.pool.Usable ∧
      (∃ lo hi, wireCount c.pool.minRunspaces = .ok lo ∧ wireCount c.pool.maxRunspaces = .ok hi ∧
        lo.toNat = c.pool.minRunspaces ∧ hi.toNat = c.pool.maxRunspaces ∧
        ∀ id, (Pool.new id c.pool).beginOpen.2 = .ok () ∧
          (Pool.new id c.pool).hello .opening = .initPool id lo hi) ∧
      (∃ s, Splitter.new? c.pool.maxFragmentSize = some s) ∧
      ∀ sink, ∃ connection, Connection.start c.pool.maxFragmentSize c.pool.maxMessageSize sink =
        .ok connection := by
  have hwritten : ∀ {c : Config} {gone : List String} {j : Json}, c.pool.FitsWord →
      Form Json.IsPlain c gone j →
        read j.toText = (c.without gone).pool.validate.map fun () => c.without gone := by
    intro c gone j hw hform
    refine read_of_ofJson? ?_
    rw [readText?, Json.toText, String.toList_ofList, Json.read?_write j hform.within]
    exact ofJson?_of_form hform hw
  refine ⟨fun c gone hw => ⟨fun text j hform htext => ?_, fun j hform => hwritten hw hform⟩,
    fun c hw hvalid => ?_, fun o => ?_, fun text c hread => ?_⟩
  · refine read_of_ofJson? ?_
    rw [readText?, htext]
    exact ofJson?_of_form hform hw
  · rw [hwritten hw (form_toJson _ c), without_nil, hvalid]
    rfl
  · cases hvalid : o.validate with
    | ok => exact .inl rfl
    | error f =>
      obtain ⟨a, rfl⟩ := PoolOptions.validate_error hvalid
      exact .inr ⟨a, rfl⟩
  · have husable : c.pool.Usable := PoolOptions.validate_eq_ok_iff.1 (validate_of_read hread)
    obtain ⟨hlo, hlo'⟩ := husable.wireCount husable.min_le_max
    obtain ⟨hhi, hhi'⟩ := husable.wireCount (Nat.le_refl _)
    exact ⟨husable, ⟨_, _, hlo, hhi, hlo', hhi', fun id => ⟨husable.beginOpen id, rfl⟩⟩,
      ⟨_, husable.splitter⟩, husable.connection⟩

/-- A text that leaves out a size and a section, and says more; what it leaves out is as it is by
default. -/
theorem read_loads_sparse :
    let c : Config :=
      { pool :=
          { minRunspaces := 2, maxRunspaces := 8, maxFragmentSize := 100, maxMessageSize := 5 }
        batching := { streaming := ["Tee-Object"] } }
    let pool : List (String × Json) := [("depth", .ofNat 3), ("maxRunspaces", .ofNat 8),
      ("minRunspaces", .ofNat 2), ("maxMessageSize", .ofNat 5)]
    let top : List (String × Json) := [("comment", .string "small"), ("pool", .object pool)]
    let left : Config := { pool := { c.pool with maxFragmentSize := 32768 } }
    c.pool.FitsWord ∧ Form Json.IsPlain c ["maxFragmentSize", "batching"] (.object top) ∧
      read (Json.object top).toText = .ok left ∧ left.pool.Usable ∧
      ∃ s, Splitter.new? left.pool.maxFragmentSize = some s := by
  intro c pool top left
  have hw : c.pool.FitsWord := ⟨by decide, by decide, by decide, by decide⟩
  have hpool : Json.Sparse Json.IsPlain c.pool.toJson.members
      ["maxFragmentSize", "batching"] pool :=
    ⟨[("depth", .ofNat 3)], List.forall_mem_singleton.2 ⟨by decide, trivial⟩,
      ((List.Perm.swap _ _ _).cons _).trans (List.perm_append_singleton _ _).symm⟩
  have hbatching : Json.Sparse Json.IsPlain c.batching.toJson.members
      ["maxFragmentSize", "batching"] c.batching.toJson.members := ⟨[], nofun, .refl _⟩
  have hform := Form.intro hpool hbatching ⟨[("comment", .string "small")],
    List.forall_mem_singleton.2 ⟨by decide, trivial⟩, (List.perm_append_singleton _ _).symm⟩
  obtain ⟨hloads, -, -, hused⟩ := read_loads
  have hread : read (Json.object top).toText = .ok left := (hloads c _ hw).2 _ hform
  obtain ⟨husable, -, hsplitter, -⟩ := hused _ _ hread
  exact ⟨hw, hform, hread, husable, hsplitter⟩

end Config

end Runspace
