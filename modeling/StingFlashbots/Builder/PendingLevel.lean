import StingFlashbots.Builder.Maintenance

/-
  The limit of the pending lists.

  Truncation cuts the longest pending lists to one level.
  The level is as high as the limit of the pool allows, but
  not lower than what every account may have. The loops find
  it from above: offenders join one after another, in the
  order of their lengths, and those that joined always have
  lists of the same length.

  Key definitions include:
    * `Builder.Mempool.Leveled`
    * `Builder.Mempool.SpamOrder`

  Main results:
    * `Builder.Mempool.exists_leveled`
    * `Builder.Mempool.truncatePending_level`
-/

namespace Builder

namespace Mempool

open Sting

variable {Tx L N : Type}
variable {types : PoolTypes Tx L N}

------------------------------------------------------------
-- Shorter Lists
------------------------------------------------------------

/- The settings, which no truncation touches. -/
structure SameSettings
    (pool pool' : Mempool Tx L N) : Prop where
  config : pool'.config = pool.config
  locals : pool'.locals = pool.locals

namespace SameSettings

variable {pool pool' pool'' : Mempool Tx L N}

theorem refl : SameSettings pool pool := ⟨rfl, rfl⟩

theorem trans
    (hLeft : SameSettings pool pool')
    (hRight : SameSettings pool' pool'') :
    SameSettings pool pool'' :=
  ⟨hRight.config.trans hLeft.config,
    hRight.locals.trans hLeft.locals⟩

/- What one round keeps, a loop keeps. -/
theorem foldl
    {A : Type}
    {f : Mempool Tx L N → A → Mempool Tx L N}
    (hRound : ∀ pool a, SameSettings pool (f pool a))
    (pool : Mempool Tx L N)
    (as : List A) :
    SameSettings pool (as.foldl f pool) := by
  induction as generalizing pool with
  | nil => exact refl
  | cons a as ih => exact (hRound pool a).trans (ih _)

end SameSettings

theorem foldl_dropCapped_pending
    (addr : Address)
    (pool : Mempool Tx L N)
    (txs : List Tx) :
    (txs.foldl (dropCapped types addr) pool).pending =
      pool.pending := by
  induction txs generalizing pool with
  | nil => rfl
  | cons tx txs ih => exact ih _

theorem trim_settings
    (pool : Mempool Tx L N)
    (addr : Address) :
    SameSettings pool (trim types pool addr) := by
  unfold trim
  split
  · exact .refl
  · next list _ =>
    have hSet :
        SameSettings pool (pool.setPending addr
          (types.lists.cap list
            (types.lists.len list - 1)).2) :=
      ⟨rfl, rfl⟩
    refine hSet.trans (SameSettings.foldl ?_ _ _)
    exact fun _ _ => ⟨rfl, rfl⟩

/- The lists after one was cut. -/
theorem trim_pending
    {pool : Mempool Tx L N}
    {addr : Address}
    {list : L}
    (hLookup : pool.pending.lookup addr = some list) :
    (trim types pool addr).pending =
      pool.pending.insert addr
        (types.lists.cap list
          (types.lists.len list - 1)).2 := by
  simp only [trim, hLookup]
  rw [foldl_dropCapped_pending]
  rfl

/- A cut takes one from a list that is not empty. -/
theorem lenAt_trim
    (pool : Mempool Tx L N)
    (addr other : Address) :
    lenAt types (trim types pool addr).pending other =
      if other = addr then lenAt types pool.pending addr - 1
      else lenAt types pool.pending other := by
  cases hLookup : pool.pending.lookup addr with
  | none =>
      have hSame : trim types pool addr = pool := by
        simp only [trim, hLookup]
      have hZero : lenAt types pool.pending addr = 0 :=
        Tally.part_of_none hLookup
      rw [hSame, hZero]
      split
      · next hAddr => rw [hAddr, hZero]
      · rfl
  | some list =>
      rw [trim_pending hLookup]
      split
      · next hAddr =>
        rw [hAddr]
        unfold lenAt
        rw [Tally.part_of_some (AList.lookup_insert _),
          Tally.part_of_some hLookup, types.lists.len_eq,
          types.lists.cap_length, types.lists.len_eq]
        omega
      · next hAddr =>
        unfold lenAt Tally.part
        rw [AList.lookup_insert_ne hAddr]

/- A total is made of what stands at a key and the rest. -/
theorem lenAll_trim
    {pool : Mempool Tx L N}
    {addr : Address}
    (hSome : 0 < lenAt types pool.pending addr) :
    lenAll types (trim types pool addr).pending + 1 =
      lenAll types pool.pending := by
  cases hLookup : pool.pending.lookup addr with
  | none =>
      unfold lenAt at hSome
      rw [Tally.part_of_none hLookup] at hSome
      cases hSome
  | some list =>
      unfold lenAt at hSome
      rw [Tally.part_of_some hLookup,
        types.lists.len_eq] at hSome
      unfold lenAll
      rw [trim_pending hLookup, Tally.total_insert,
        Tally.total_of_lookup hLookup, types.lists.len_eq,
        types.lists.cap_length, types.lists.len_eq]
      omega

/- One round takes one from each offender. -/
theorem lenAt_trimAll
    (pool : Mempool Tx L N)
    {offenders : List Address}
    (hNodup : offenders.Nodup)
    (addr : Address) :
    lenAt types
        (offenders.foldl (trim types) pool).pending addr =
      if addr ∈ offenders then
        lenAt types pool.pending addr - 1
      else
        lenAt types pool.pending addr := by
  induction offenders generalizing pool with
  | nil => rfl
  | cons offender offenders ih =>
      rcases List.nodup_cons.mp hNodup with ⟨hNew, hNodup⟩
      rw [List.foldl_cons, ih _ hNodup, lenAt_trim]
      by_cases hSame : addr = offender
      · simp [hSame, hNew]
      · simp [hSame]

theorem lenAll_trimAll
    {pool : Mempool Tx L N}
    {offenders : List Address}
    (hNodup : offenders.Nodup)
    (hSome :
      ∀ addr ∈ offenders,
        0 < lenAt types pool.pending addr) :
    lenAll types
          (offenders.foldl (trim types) pool).pending +
        offenders.length =
      lenAll types pool.pending := by
  induction offenders generalizing pool with
  | nil => rfl
  | cons offender offenders ih =>
      rcases List.nodup_cons.mp hNodup with ⟨hNew, hNodup⟩
      have hRest :
          ∀ addr ∈ offenders,
            0 < lenAt types
              (trim types pool offender).pending addr := by
        intro addr hAddr
        rw [lenAt_trim, if_neg (by
          intro hSame
          exact hNew (hSame ▸ hAddr))]
        exact hSome addr (List.mem_cons_of_mem _ hAddr)
      have hTail := ih hNodup hRest
      have hHead := lenAll_trim
        (hSome offender List.mem_cons_self)
      rw [List.foldl_cons, List.length_cons]
      omega

/- A list is not longer than all lists. -/
theorem lenAt_le
    (map : ListMap L)
    (addr : Address) :
    lenAt types map addr ≤ lenAll types map := by
  unfold lenAt lenAll
  rw [Tally.total_eq types.lists.len addr map]
  exact Nat.le_add_right _ _

------------------------------------------------------------
-- Lists at One Level
------------------------------------------------------------

variable (types) in
/-
  The lists of the spammers are cut to a level, and at the
  next higher level there are more than the limit.
-/
structure Leveled
    (limit : Nat)
    (spammers : List Address)
    (before : Address → Nat)
    (level : Nat)
    (acc : Mempool Tx L N × Nat) : Prop where
  pending : acc.2 = lenAll types acc.1.pending
  lenAt :
    ∀ addr, Mempool.lenAt types acc.1.pending addr =
      if addr ∈ spammers then min (before addr) level
      else before addr
  tight :
    limit < acc.2 +
      spammers.countP (fun addr => level < before addr)

namespace Leveled

variable {limit level : Nat}
variable {offenders rest : List Address}
variable {before : Address → Nat}
variable {acc : Mempool Tx L N × Nat}

/- An offender has a list as long as the level. -/
theorem lenAt_offender
    (hAt : Leveled types limit (offenders ++ rest) before
      level acc)
    (hHigh : ∀ addr ∈ offenders, level ≤ before addr)
    {addr : Address}
    (hAddr : addr ∈ offenders) :
    Mempool.lenAt types acc.1.pending addr = level := by
  rw [hAt.lenAt, if_pos (List.mem_append_left _ hAddr)]
  exact Nat.min_eq_right (hHigh addr hAddr)

/- One round lowers the level. -/
theorem round
    (hAt : Leveled types limit (offenders ++ rest) before
      (level + 1) acc)
    (hNodup : (offenders ++ rest).Nodup)
    (hOver : limit < acc.2)
    (hHigh : ∀ addr ∈ offenders, level + 1 ≤ before addr)
    (hLow : ∀ addr ∈ rest, before addr ≤ level) :
    Leveled types limit (offenders ++ rest) before level
      (offenders.foldl (trim types) acc.1,
        acc.2 - offenders.length) := by
  have hOffenders := (List.nodup_append.mp hNodup).1
  have hTotal :
      lenAll types
            (offenders.foldl (trim types) acc.1).pending +
          offenders.length =
        acc.2 := by
    rw [hAt.pending]
    refine lenAll_trimAll hOffenders ?_
    intro addr hAddr
    rw [hAt.lenAt_offender hHigh hAddr]
    exact Nat.succ_pos level
  refine ⟨?_, ?_, ?_⟩
  · simp only
    omega
  · intro addr
    simp only
    rw [lenAt_trimAll acc.1 hOffenders, hAt.lenAt]
    by_cases hOff : addr ∈ offenders
    · have := hHigh addr hOff
      simp only [hOff, List.mem_append, true_or, if_true]
      omega
    · by_cases hRest : addr ∈ rest
      · have := hLow addr hRest
        simp only [hOff, hRest, List.mem_append, or_true,
          if_true, if_false]
        omega
      · simp [hOff, hRest]
  · -- the offenders are those above the level
    have hCount :
        (offenders ++ rest).countP
            (fun addr => level < before addr) =
          offenders.length := by
      have hLeft :
          offenders.countP
              (fun addr => level < before addr) =
            offenders.length :=
        List.countP_eq_length.mpr (fun addr hAddr =>
          decide_eq_true (hHigh addr hAddr))
      have hRight :
          rest.countP (fun addr => level < before addr) =
            0 :=
        List.countP_eq_zero.mpr (fun addr hAddr => by
          simpa using hLow addr hAddr)
      rw [List.countP_append, hLeft, hRight, add_zero]
    rw [hCount]
    simp only
    omega

/- The rounds end at the limit or at the bound. -/
theorem trimRounds
    (hAt : Leveled types limit (offenders ++ rest) before
      level acc)
    (hNodup : (offenders ++ rest).Nodup)
    {bound fuel : Nat}
    (hBound : bound ≤ level)
    (hHigh : ∀ addr ∈ offenders, level ≤ before addr)
    (hLow : ∀ addr ∈ rest, before addr ≤ bound)
    {last : Address}
    (hLast : last ∈ offenders)
    (hFuel : level ≤ fuel + bound) :
    ∃ level', bound ≤ level' ∧ level' ≤ level ∧
      Leveled types limit (offenders ++ rest) before level'
        (Mempool.trimRounds types limit bound offenders last
          fuel acc) ∧
      ((Mempool.trimRounds types limit bound offenders last
          fuel acc).2 ≤ limit ∨ level' = bound) := by
  induction fuel generalizing level acc with
  | zero =>
      refine ⟨level, hBound, le_rfl, hAt, .inr ?_⟩
      omega
  | succ fuel ih =>
      unfold Mempool.trimRounds
      rw [hAt.lenAt_offender hHigh hLast]
      split
      · next hGo =>
        rcases Nat.exists_eq_succ_of_ne_zero
          (Nat.ne_of_gt (Nat.zero_lt_of_lt hGo.2)) with
          ⟨lower, rfl⟩
        have hLower : bound ≤ lower :=
          Nat.le_of_lt_succ hGo.2
        have hNext := hAt.round hNodup hGo.1 hHigh
          (fun addr hAddr => (hLow addr hAddr).trans hLower)
        rcases ih hNext hLower
          (fun addr hAddr =>
            (Nat.le_succ lower).trans (hHigh addr hAddr))
          (by omega) with
          ⟨level', hGe, hLe, hEnd, hDone⟩
        exact ⟨level', hGe, hLe.trans (Nat.le_succ lower),
          hEnd, hDone⟩
      · next hStop =>
        refine ⟨level, hBound, le_rfl, hAt, ?_⟩
        simp only
        omega

/- The counter is at least the level of an offender. -/
theorem le_pending
    (hAt : Leveled types limit (offenders ++ rest) before
      level acc)
    (hHigh : ∀ addr ∈ offenders, level ≤ before addr)
    {last : Address}
    (hLast : last ∈ offenders) :
    level ≤ acc.2 := by
  have hLe : Mempool.lenAt types acc.1.pending last ≤
      lenAll types acc.1.pending := lenAt_le _ last
  rw [hAt.lenAt_offender hHigh hLast, ← hAt.pending] at hLe
  exact hLe

/- With enough room there are no more rounds. -/
theorem trimRounds_of_room
    (hRoom : acc.2 ≤ limit)
    {bound fuel : Nat}
    {last : Address} :
    Mempool.trimRounds types limit bound offenders last fuel
        acc = acc := by
  cases fuel with
  | zero => rfl
  | succ fuel =>
      unfold Mempool.trimRounds
      exact if_neg
        (fun hGo => Nat.not_lt_of_le hRoom hGo.1)

/- With enough room nobody joins. -/
theorem equalize_of_room
    (hRoom : acc.2 ≤ limit) :
    Mempool.equalize types limit offenders rest acc =
      (offenders, acc) := by
  cases rest with
  | nil => rfl
  | cons offender spammers =>
      unfold Mempool.equalize
      exact if_neg (Nat.not_lt_of_le hRoom)

/-
  Offenders join until there is room, or until all of them
  have joined.
-/
theorem equalize
    (hAt : Leveled types limit (offenders ++ rest) before
      level acc)
    (hNodup : (offenders ++ rest).Nodup)
    (hOrder : rest.Pairwise (fun a b => before b ≤ before a))
    (hHigh : ∀ addr ∈ offenders, level ≤ before addr)
    (hLow : ∀ addr ∈ rest, before addr ≤ level)
    (hSome : offenders ≠ [])
    {floor : Nat}
    (hFloor : floor ≤ level)
    (hAbove : ∀ addr ∈ rest, floor ≤ before addr) :
    ∃ level', floor ≤ level' ∧
      Leveled types limit (offenders ++ rest) before level'
        (Mempool.equalize types limit offenders rest acc).2 ∧
      (Mempool.equalize types limit offenders rest acc).1 ≠
        [] ∧
      ((Mempool.equalize types limit offenders rest
            acc).2.2 ≤ limit ∨
        (Mempool.equalize types limit offenders rest acc).1 =
            offenders ++ rest ∧
          ∀ addr ∈ offenders ++ rest,
            level' ≤ before addr) := by
  induction rest generalizing offenders level acc with
  | nil =>
      unfold Mempool.equalize
      refine ⟨level, hFloor, hAt, hSome, .inr ?_⟩
      rw [List.append_nil]
      exact ⟨rfl, hHigh⟩
  | cons offender spammers ih =>
      unfold Mempool.equalize
      split
      · rcases List.pairwise_cons.mp hOrder with
          ⟨hFirst, hOrder⟩
        have hLast := List.getLast_mem hSome
        have hOffender : offender ∈ offender :: spammers :=
          List.mem_cons_self
        -- the next one sets the bound of these rounds
        have hThreshold :
            Mempool.lenAt types acc.1.pending offender =
              before offender := by
          rw [hAt.lenAt,
            if_pos (List.mem_append_right _ hOffender)]
          exact Nat.min_eq_left (hLow offender hOffender)
        have hRest :
            ∀ addr ∈ offender :: spammers,
              before addr ≤ before offender := by
          intro addr hAddr
          rcases List.mem_cons.mp hAddr with hSame | hTail
          · rw [hSame]
          · exact hFirst addr hTail
        have hFuel : level ≤ acc.2 + before offender :=
          Nat.le_add_right_of_le (hAt.le_pending hHigh hLast)
        rcases hAt.trimRounds hNodup
          (hLow offender hOffender) hHigh hRest hLast hFuel
          with ⟨lower, hGe, hLe, hNext, hDone⟩
        have hLower : floor ≤ lower :=
          (hAbove offender hOffender).trans hGe
        rw [List.append_cons] at hNext hNodup ⊢
        simp only [List.getLast?_eq_getLast_of_ne_nil hSome,
          hThreshold]
        have hMore : offenders ++ [offender] ≠ [] := by
          simp
        rcases hDone with hRoom | hEqual
        · rw [equalize_of_room hRoom]
          exact ⟨lower, hLower, hNext, hMore, .inl hRoom⟩
        · refine ih hNext hNodup hOrder ?_ ?_ hMore hLower ?_
          · intro addr hAddr
            rcases List.mem_append.mp hAddr with hOld | hNew
            · exact hLe.trans (hHigh addr hOld)
            · rw [List.mem_singleton.mp hNew, hEqual]
          · exact fun addr hAddr =>
              (hFirst addr hAddr).trans hGe
          · exact fun addr hAddr =>
              hAbove addr (List.mem_cons_of_mem _ hAddr)
      · next hRoom =>
        exact ⟨level, hFloor, hAt, hSome,
          .inl (Nat.le_of_not_lt hRoom)⟩

end Leveled

variable (types) in
/-
  The order in which the queue of spammers hands them out:
  each once, the one with the longest list first.
-/
structure SpamOrder
    (pool : Mempool Tx L N)
    (spammers : List Address) : Prop where
  nodup : spammers.Nodup
  mem_iff : ∀ addr, addr ∈ spammers ↔ isSpammer types pool addr
  order :
    spammers.Pairwise (fun a b =>
      lenAt types pool.pending b ≤
        lenAt types pool.pending a)

/- The first one joins without a round. -/
theorem equalize_first
    {limit : Nat}
    {acc : Mempool Tx L N × Nat}
    (hOver : limit < acc.2)
    {first : Address}
    {rest : List Address} :
    equalize types limit [] (first :: rest) acc =
      equalize types limit [first] rest acc := by
  rw [equalize, if_pos hOver]
  rfl

/- All spammers are cut to one level. -/
theorem exists_leveled
    {pool : Mempool Tx L N}
    {spammers : List Address}
    (hSpam : SpamOrder types pool spammers)
    (hOver :
      pool.config.globalSlots.toNat <
        lenAll types pool.pending) :
    ∃ level acc,
      truncatePending types pool spammers = acc.1 ∧
      pool.config.accountSlots.toNat ≤ level ∧
      Leveled types pool.config.globalSlots.toNat spammers
        (lenAt types pool.pending) level acc ∧
      (acc.2 ≤ pool.config.globalSlots.toNat ∨
        level = pool.config.accountSlots.toNat) := by
  unfold truncatePending
  simp only [if_neg (Nat.not_le_of_lt hOver)]
  cases spammers with
  | nil =>
      refine ⟨pool.config.accountSlots.toNat,
        (pool, lenAll types pool.pending), rfl, le_rfl,
        ⟨rfl, ?_, ?_⟩, .inr rfl⟩
      · simp
      · simpa using hOver
  | cons first rest =>
      rcases List.pairwise_cons.mp hSpam.order with
        ⟨hFirst, hOrder⟩
      have hAbove :
          ∀ addr ∈ first :: rest,
            pool.config.accountSlots.toNat ≤
              lenAt types pool.pending addr :=
        fun addr hAddr =>
          ((hSpam.mem_iff addr).mp hAddr).2.le
      have hLow :
          ∀ addr ∈ first :: rest,
            lenAt types pool.pending addr ≤
              lenAt types pool.pending first := by
        intro addr hAddr
        rcases List.mem_cons.mp hAddr with hSame | hTail
        · rw [hSame]
        · exact hFirst addr hTail
      -- nobody is above the first one
      have hStart :
          Leveled types pool.config.globalSlots.toNat
            ([first] ++ rest) (lenAt types pool.pending)
            (lenAt types pool.pending first)
            (pool, lenAll types pool.pending) := by
        refine ⟨rfl, ?_, Nat.lt_add_right _ hOver⟩
        intro addr
        split
        · next hAddr =>
          exact (Nat.min_eq_left (hLow addr hAddr)).symm
        · rfl
      have hFirstHigh :
          ∀ addr ∈ [first],
            lenAt types pool.pending first ≤
              lenAt types pool.pending addr := by
        intro addr hAddr
        rw [List.mem_singleton.mp hAddr]
      rw [equalize_first hOver]
      rcases hStart.equalize hSpam.nodup hOrder hFirstHigh
        (fun addr hAddr =>
          hLow addr (List.mem_cons_of_mem _ hAddr))
        (List.cons_ne_nil _ _)
        (hAbove first List.mem_cons_self)
        (fun addr hAddr =>
          hAbove addr (List.mem_cons_of_mem _ hAddr)) with
        ⟨level, hGe, hEqual, hSome, hDone⟩
      rcases hResult :
        equalize types pool.config.globalSlots.toNat [first]
          rest (pool, lenAll types pool.pending) with
        ⟨joined, acc⟩
      simp only [hResult] at hEqual hSome hDone ⊢
      rw [List.getLast?_eq_getLast_of_ne_nil hSome]
      rcases hDone with hRoom | ⟨rfl, hHigh⟩
      · simp only [Leveled.trimRounds_of_room hRoom]
        exact ⟨level, acc, rfl, hGe, hEqual, .inl hRoom⟩
      · have hLast := List.getLast_mem hSome
        rw [← List.append_nil ([first] ++ rest)] at hEqual
        have hFuel := hEqual.le_pending hHigh hLast
        rcases hEqual.trimRounds
          (by simpa using hSpam.nodup) hGe hHigh (by simp)
          hLast (Nat.le_add_right_of_le hFuel) with
          ⟨level', hGe', _, hEnd, hDone⟩
        rw [List.append_nil] at hEnd
        exact ⟨level', _, rfl, hGe', hEnd, hDone⟩

/-
  An overfull pool cuts the lists of all accounts that are
  not local to one level. No level that leaves more to the
  accounts would do.
-/
theorem truncatePending_level
    {pool : Mempool Tx L N}
    {spammers : List Address}
    (hSpam : SpamOrder types pool spammers)
    (hOver :
      pool.config.globalSlots.toNat <
        lenAll types pool.pending) :
    ∃ level,
      pool.config.accountSlots.toNat ≤ level ∧
      (∀ addr,
        lenAt types
            (truncatePending types pool spammers).pending
            addr =
          if pool.locals.contains addr then
            lenAt types pool.pending addr
          else
            min (lenAt types pool.pending addr) level) ∧
      (lenAll types
            (truncatePending types pool spammers).pending ≤
          pool.config.globalSlots.toNat ∨
        level = pool.config.accountSlots.toNat) ∧
      pool.config.globalSlots.toNat <
        lenAll types
            (truncatePending types pool spammers).pending +
          spammers.countP (fun addr =>
            level < lenAt types pool.pending addr) := by
  rcases exists_leveled hSpam hOver with
    ⟨level, acc, hTruncate, hGe, hLevel, hDone⟩
  rw [hTruncate, ← hLevel.pending]
  refine ⟨level, hGe, ?_, hDone, hLevel.tight⟩
  intro addr
  rw [hLevel.lenAt]
  by_cases hAddr : addr ∈ spammers
  · have hRemote := ((hSpam.mem_iff addr).mp hAddr).1
    simp [hAddr, hRemote]
  · simp only [if_neg hAddr]
    split
    · rfl
    · next hRemote =>
      -- the lists of the others are short enough
      have hShort :
          lenAt types pool.pending addr ≤
            pool.config.accountSlots.toNat := by
        by_contra hLong
        exact hAddr ((hSpam.mem_iff addr).mpr
          ⟨by simpa using hRemote, Nat.lt_of_not_le hLong⟩)
      exact (Nat.min_eq_left (hShort.trans hGe)).symm

/- So many transfers of one account, one after another. -/
def sampleList
    (addr : Address)
    (n : Nat) : PlainList SampleTx.view :=
  (List.range n).foldl
    (fun list i =>
      (samplePoolTypes.lists.add list
        ⟨addr, i.toUInt8, 5⟩ 10).2)
    (samplePoolTypes.lists.newList true)

/- Nine pending transactions, where six are allowed. -/
def crowdedPool :
    Mempool SampleTx (PlainList SampleTx.view)
      PlainNoncer :=
  { (empty samplePoolTypes
      { defaultConfig with
        accountSlots := 1
        globalSlots := 6 }) with
    pending :=
      ((AList.insert 3 (sampleList 3 1) ∅).insert 2
        (sampleList 2 3)).insert 1 (sampleList 1 5) }

/- The order of the spammers of this pool. -/
theorem crowdedPool_spamOrder :
    SpamOrder samplePoolTypes crowdedPool [1, 2] where
  nodup := by decide
  mem_iff := by
    intro addr
    constructor
    · intro hAddr
      simp only [List.mem_cons, List.not_mem_nil,
        or_false] at hAddr
      rcases hAddr with rfl | rfl
      · exact ⟨by decide, by decide⟩
      · exact ⟨by decide, by decide⟩
    · rintro ⟨_, hLong⟩
      by_contra hAddr
      simp only [List.mem_cons, List.not_mem_nil, or_false,
        not_or] at hAddr
      by_cases hThree : addr = 3
      · rw [hThree] at hLong
        revert hLong
        decide
      · have hNone : crowdedPool.pending.lookup addr = none := by
          simp only [crowdedPool]
          rw [AList.lookup_insert_ne hAddr.1,
            AList.lookup_insert_ne hAddr.2,
            AList.lookup_insert_ne hThree]
          rfl
        rw [lenAt, Tally.part_of_none hNone] at hLong
        cases hLong
  order := by decide

/- Two each are left to the accounts that had five and three. -/
theorem truncatePending_level_sample :
    lenAll samplePoolTypes crowdedPool.pending = 9 ∧
      lenAll samplePoolTypes
          (truncatePending samplePoolTypes crowdedPool
            [1, 2]).pending = 5 ∧
      ∃ level,
        1 ≤ level ∧
        lenAt samplePoolTypes
            (truncatePending samplePoolTypes crowdedPool
              [1, 2]).pending 1 =
          min 5 level ∧
        lenAt samplePoolTypes
            (truncatePending samplePoolTypes crowdedPool
              [1, 2]).pending 2 =
          min 3 level := by
  refine ⟨by decide, by decide, ?_⟩
  rcases truncatePending_level crowdedPool_spamOrder
    (by decide) with ⟨level, hGe, hLen, _, _⟩
  exact ⟨level, hGe, hLen 1, hLen 2⟩

end Mempool

end Builder
