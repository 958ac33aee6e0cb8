import DarkSilk.ScriptNum
import DarkSilk.SignatureHash

/-! Building a script with `<<` and taking it apart again. Every item that is appended is one
operation, and is read back as this operation; a push that is searched for is found exactly
where it was appended. Lengths are kept in 32 bits, which limits both. -/
namespace DarkSilk

open PrefixCode List

namespace Script

inductive Item
  | vector (b : List UInt8)
  | int64 (n : Int64)
  | uint64 (n : UInt64)
  | opcode (b : UInt8) (h : OP_PUSHDATA4 < b.toNat)

def pushUint64 (n : UInt64) : CScript :=
  if 1 ≤ n && n ≤ 16 then [n.toUInt8+0x50] else pushVector (getvch n.toNat)

def Item.bytes : Item → CScript
  | .vector b => pushVector b
  | .int64 n => pushInt64 n.toInt
  | .uint64 n => pushUint64 n
  | .opcode b _ => [b]

def build (items : List Item) : CScript := items.foldl (fun script item => script++item.bytes) []

/-- The operation for a number: an opcode of its own for the small ones, or the push of its
bytes. -/
def numberOp (n : ℤ) : ℕ × List UInt8 :=
  if n = -1 || (1 ≤ n && n ≤ 16) then ((n+0x50).toNat,[]) else (pushMark (getvch n).length,getvch n)

def Item.op : Item → ℕ × List UInt8
  | .vector b => (pushMark b.length,b)
  | .int64 n => numberOp n.toInt
  | .uint64 n => numberOp n.toNat
  | .opcode b _ => (b.toNat,[])

/-- Reading one operation as the code has it: the bytes that are left are counted in 32 bits. -/
def getOp : CScript → ReadOp
  | [] => ⟨false,OP_INVALIDOPCODE,[],[]⟩
  | b::pc =>
    let opcode := b.toNat
    if opcode ≤ OP_PUSHDATA4 then
      if pc.length < pushWidth opcode then ⟨false,OP_INVALIDOPCODE,[],pc⟩
      else
        let nSize := if opcode < OP_PUSHDATA1 then opcode else leValue (pc.take (pushWidth opcode))
        let pc := pc.drop (pushWidth opcode)
        if pc.length%2^32 < nSize then ⟨false,OP_INVALIDOPCODE,[],pc⟩
        else ⟨true,opcode,pc.take nSize,pc.drop nSize⟩
    else ⟨true,opcode,[],pc⟩

/-- The operations up to the end, if no read fails. -/
def getOps : ℕ → CScript → Option (List (ℕ × List UInt8))
  | _, [] => some []
  | 0, _ => none
  | fuel+1, pc =>
    let r := getOp pc
    if r.ok then (getOps fuel r.rest).map fun ops => (r.opcode,r.data)::ops else none

/-- Where an operation starts, the pattern is taken out as often as it stands there. The
matches are counted in an int. -/
def deleteFound (b : CScript) : ℕ → CScript → Int32 × CScript
  | 0, pc => (0,pc)
  | fuel+1, pc =>
    if b.isPrefixOf pc then
      let found := deleteFound b fuel (pc.drop b.length)
      (found.1+1,found.2)
    else
      let r := getOp pc
      if r.ok then
        let found := deleteFound b fuel r.rest
        (found.1,pc.take (pc.length-r.rest.length)++found.2)
      else (0,pc)

def findAndDelete (b script : CScript) : Int32 × CScript :=
  if b = [] then (0,script) else deleteFound b script.length script

/-- Below 4 GiB the bytes that are left are counted right, and the two models of a read agree. -/
theorem getOp_eq_getOp2 {pc : CScript} (h : pc.length ≤ 2^32) : getOp pc = getOp2 pc := by
  cases pc with
  | nil => rfl
  | cons b pc =>
    rw [length_cons] at h
    have hmod (n) : (pc.drop n).length%2^32 = (pc.drop n).length :=
      Nat.mod_eq_of_lt (by rw [length_drop]; omega)
    simp only [getOp,getOp2,hmod]

theorem length_rest_getOp2_le (pc) : (getOp2 pc).rest.length ≤ pc.length := by
  cases pc with
  | nil => exact le_rfl
  | cons b pc => exact (length_rest_getOp2 b pc).trans (Nat.le_succ _)

/-- What is left of a script does not depend on the count. -/
theorem findAndDelete_snd {b script : CScript} (h : script.length ≤ 2^32) :
    (findAndDelete b script).2 = Consensus.findAndDelete b script := by
  have hloop : ∀ fuel (pc : CScript), pc.length ≤ 2^32 →
      (deleteFound b fuel pc).2 = Consensus.deleteLoop b fuel pc := by
    intro fuel
    induction fuel with
    | zero => exact fun _ _ => rfl
    | succ fuel ih =>
      intro pc hpc
      have hdrop := ih (pc.drop b.length) (by rw [length_drop]; omega)
      have hrest := ih (getOp2 pc).rest ((length_rest_getOp2_le pc).trans hpc)
      simp only [deleteFound,Consensus.deleteLoop,getOp_eq_getOp2 hpc]
      split_ifs <;> simp only [hdrop,hrest]
  rw [findAndDelete,Consensus.findAndDelete]
  split_ifs
  · rfl
  · exact hloop _ _ h

theorem build_eq (items) : build items = items.flatMap Item.bytes := by
  have hfold : ∀ script : CScript, items.foldl (fun script item => script++item.bytes) script =
      script++items.flatMap Item.bytes := by
    induction items with
    | nil => simp
    | cons item items ih =>
      intro script
      rw [foldl_cons,ih,flatMap_cons,append_assoc]
  exact hfold []

theorem build_cons (item items) : build (item::items) = item.bytes++build items := by
  rw [build_eq,build_eq,flatMap_cons]

theorem length_pushHeader (n) : 0 < (pushHeader n).length ∧ (pushHeader n).length ≤ 5 := by
  unfold pushHeader
  split_ifs <;> simp [leBytes]

theorem size_of_pushMark {n} (h : n < 2^32) :
    (if pushMark n < OP_PUSHDATA1 then pushMark n else leValue
      (leBytes (pushWidth (pushMark n)) n)) = n := by
  by_cases h1 : n < OP_PUSHDATA1
  · rw [pushMark,if_pos h1,if_pos h1]
  by_cases h2 : n ≤ 0xff
  · rw [pushMark,if_neg h1,if_pos h2]
    exact leValue_leBytes (show n < 256^1 by omega)
  by_cases h3 : n ≤ 0xffff
  · rw [pushMark,if_neg h1,if_neg h2,if_pos h3]
    exact leValue_leBytes (show n < 256^2 by omega)
  · rw [pushMark,if_neg h1,if_neg h2,if_neg h3]
    exact leValue_leBytes (show n < 256^4 by omega)

theorem getOp_pushVector {b rest} (h : (pushVector b++rest).length ≤ 2^32) :
    getOp (pushVector b++rest) = ⟨true,pushMark b.length,b,rest⟩ := by
  have hheader := (length_pushHeader b.length).1
  rw [pushVector,append_assoc,length_append,length_append] at h
  have hmark : (UInt8.ofNat (pushMark b.length)).toNat = pushMark b.length := by
    have hle := pushMark_le b.length
    simp only [OP_PUSHDATA4] at hle
    rw [UInt8.toNat_ofNat',Nat.mod_eq_of_lt (by omega)]
  have hwidth : (leBytes (pushWidth (pushMark b.length)) b.length).length = pushWidth (pushMark b.length) :=
    length_leBytes _ _
  have hsize := size_of_pushMark (n := b.length) (by omega)
  have hmod : (b++rest).length%2^32 = (b++rest).length := Nat.mod_eq_of_lt (by rw [length_append]; omega)
  rw [pushVector,pushHeader_eq,append_assoc,cons_append,getOp]
  simp only [hmark,pushMark_le,if_true]
  rw [if_neg (by rw [length_append,hwidth]; omega),take_left' hwidth,drop_left' hwidth,hsize,hmod,
    if_neg (by rw [length_append]; omega),take_left,drop_left]

theorem getOp_opcode {b} (h : OP_PUSHDATA4 < b.toNat) (rest) :
    getOp (b::rest) = ⟨true,b.toNat,[],rest⟩ := by
  rw [getOp]
  simp only [if_neg (not_le.mpr h)]

theorem toNat_smallOpcode {n : ℤ} (h : n = -1 ∨ 1 ≤ n ∧ n ≤ 16) :
    (UInt8.ofNat (n+(OP_1-1)).toNat).toNat = (n+0x50).toNat := by
  have hop : n+((OP_1 : ℕ)-1) = n+0x50 := by
    simp only [OP_1]
    norm_num
  rw [hop,UInt8.toNat_ofNat',Nat.mod_eq_of_lt (by omega)]

theorem pushUint64_eq (n) : pushUint64 n = pushInt64 n.toNat := by
  unfold pushUint64 pushInt64
  have hone : (1 ≤ n) ↔ 1 ≤ (n.toNat : ℤ) := by
    rw [UInt64.le_iff_toNat_le]
    show 1 ≤ n.toNat ↔ _
    omega
  have hmax : (n ≤ 16) ↔ (n.toNat : ℤ) ≤ 16 := by
    rw [UInt64.le_iff_toNat_le]
    show n.toNat ≤ 16 ↔ _
    omega
  have hneg : ¬ (n.toNat : ℤ) = -1 := by omega
  simp only [hone,hmax,hneg,decide_false,Bool.false_or]
  split_ifs with h
  · simp only [Bool.and_eq_true,decide_eq_true_eq] at h
    have hop : n.toUInt8+0x50 = UInt8.ofNat ((n.toNat : ℤ)+(OP_1-1)).toNat := by
      rw [← UInt8.toNat_inj,toNat_smallOpcode (.inr h),UInt8.toNat_add,UInt64.toNat_toUInt8]
      show (n.toNat%256+80)%256 = _
      omega
    rw [hop]
  · rfl

theorem getOp_pushInt64 {n : ℤ} {rest} (h : (pushInt64 n++rest).length ≤ 2^32) :
    getOp (pushInt64 n++rest) = ⟨true,(numberOp n).1,(numberOp n).2,rest⟩ := by
  rw [pushInt64] at h ⊢
  rw [numberOp]
  split_ifs at h ⊢ with hsmall
  · simp only [Bool.or_eq_true,Bool.and_eq_true,decide_eq_true_eq] at hsmall
    have hop := toNat_smallOpcode hsmall
    rw [singleton_append,getOp_opcode (by rw [hop]; simp only [OP_PUSHDATA4]; omega),hop]
  · exact getOp_pushVector h

theorem getOp_bytes {item : Item} {rest} (h : (item.bytes++rest).length ≤ 2^32) :
    getOp (item.bytes++rest) = ⟨true,item.op.1,item.op.2,rest⟩ := by
  cases item with
  | vector b => exact getOp_pushVector h
  | int64 n => exact getOp_pushInt64 h
  | uint64 n =>
    rw [Item.bytes,pushUint64_eq] at h ⊢
    exact getOp_pushInt64 h
  | opcode b hb => exact getOp_opcode hb rest

theorem length_pushVector_pos (b) : 0 < (pushVector b).length := by
  have hpos := (length_pushHeader b.length).1
  rw [pushVector,length_append]
  omega

theorem length_pushInt64_pos (n) : 0 < (pushInt64 n).length := by
  rw [pushInt64]
  split_ifs
  · exact Nat.one_pos
  · exact length_pushVector_pos _

theorem length_bytes_pos (item : Item) : 0 < item.bytes.length := by
  cases item with
  | vector b => exact length_pushVector_pos b
  | int64 n => exact length_pushInt64_pos n.toInt
  | uint64 n =>
    rw [Item.bytes,pushUint64_eq]
    exact length_pushInt64_pos _
  | opcode b hb => exact Nat.one_pos

theorem getOps_build {items : List Item} (h : (build items).length ≤ 2^32) {fuel : ℕ}
    (hfuel : (build items).length ≤ fuel) :
    getOps fuel (build items) = some (items.map Item.op) := by
  induction items generalizing fuel with
  | nil => cases fuel <;> rfl
  | cons item items ih =>
    rw [build_cons] at h hfuel ⊢
    have hread := getOp_bytes h
    have hpos := length_bytes_pos item
    rw [length_append] at h hfuel
    obtain ⟨b,bytes,hb⟩ := exists_cons_of_length_pos hpos
    cases fuel with
    | zero => omega
    | succ fuel =>
      have hne : item.bytes++build items = b::(bytes++build items) := by rw [hb,cons_append]
      rw [hne] at hread ⊢
      rw [getOps]
      · simp only [hread,if_true]
        rw [ih (by omega) (by omega)]
        rfl
      · simp

/-- A push stands at the start of an item only if it is this item. -/
theorem pushVector_isPrefixOf_iff {v} {item : Item} {rest} (h : (item.bytes++rest).length ≤ 2^32) :
    (pushVector v).isPrefixOf (item.bytes++rest) ↔ item.bytes = pushVector v := by
  refine isPrefixOf_iff_prefix.trans ⟨?_,?_⟩
  · rintro ⟨rest',heq⟩
    have hread := getOp_pushVector (show (pushVector v++rest').length ≤ 2^32 by rw [heq]; exact h)
    rw [heq,getOp_bytes h] at hread
    obtain rfl : rest = rest' := congrArg ReadOp.rest hread
    exact (append_cancel_right heq).symm
  · intro heq
    rw [heq]
    exact prefix_append _ _

theorem deleteFound_build (v : List UInt8) {items : List Item} (h : (build items).length ≤ 2^32)
    {fuel} (hfuel : (build items).length ≤ fuel) :
    deleteFound (pushVector v) fuel (build items) =
      (Int32.ofNat (items.filter fun item => item.bytes = pushVector v).length,
        build (items.filter fun item => item.bytes ≠ pushVector v)) := by
  induction items generalizing fuel with
  | nil =>
    have hpos := length_pushVector_pos v
    cases fuel with
    | zero => rfl
    | succ fuel =>
      have hno : (pushVector v).isPrefixOf (build []) = false := by
        rw [Bool.eq_false_iff,ne_eq, isPrefixOf_iff_prefix]
        intro hprefix
        have hlen : (pushVector v).length ≤ 0 := hprefix.length_le
        omega
      rw [deleteFound,hno]
      rfl
  | cons item items ih =>
    rw [build_cons] at h hfuel ⊢
    have hread := getOp_bytes h
    have hfound := pushVector_isPrefixOf_iff (v := v) h
    have hpos := length_bytes_pos item
    rw [length_append] at h hfuel
    cases fuel with
    | zero => omega
    | succ fuel =>
      have hrest := @ih (by omega) fuel (by omega)
      rw [deleteFound]
      by_cases heq : item.bytes = pushVector v
      · rw [if_pos (hfound.mpr heq),← heq,drop_left,heq,hrest]
        simp [heq,Int32.ofNat_add]
      · rw [if_neg fun hp => heq (hfound.mp hp),hread]
        simp only [if_true,hrest,length_append,Nat.add_sub_cancel,take_left]
        simp [heq,build_cons]

theorem getLast?_natBytes {k n} (h : n ≤ k) {top} (htop : (natBytes k n).getLast? = some top) :
    top ≠ 0 := by
  induction k generalizing n with
  | zero => simp [natBytes] at htop
  | succ k ih =>
    rw [natBytes] at htop
    split_ifs at htop with hn
    · simp at htop
    · cases hrest : natBytes k (n/256) with
      | nil =>
        have hsmall := leValue_natBytes (k := k) (n := n/256) (by omega)
        rw [hrest,leValue] at hsmall
        rw [hrest,getLast?_singleton] at htop
        rw [← Option.some.inj htop,ne_eq,← UInt8.toNat_inj,UInt8.toNat_ofNat']
        show ¬ n%2^8 = 0
        omega
      | cons b l =>
        rw [hrest,getLast?_cons_cons,← hrest] at htop
        exact ih (by omega) htop

theorem magnitude_ne_zero {top : UInt8} (hne : top ≠ 0) (hsign : ¬ 0x80 ≤ top) :
    top &&& 0x7f ≠ 0 ∧ (top+0x80) &&& 0x7f ≠ 0 := by
  have htop := toNat_lt_of_not_sign hsign
  have hpos : top.toNat ≠ 0 := fun h => hne (UInt8.toNat_inj.mp h)
  have hand : ∀ n : ℕ, n &&& 127 = n%128 := fun n => Nat.and_two_pow_sub_one_eq_mod n 7
  refine ⟨fun h => hpos ?_,fun h => hpos ?_⟩
  · have hnat := congrArg UInt8.toNat h
    rw [UInt8.toNat_and] at hnat
    change top.toNat &&& 127 = 0 at hnat
    rw [hand] at hnat
    omega
  · have hnat := congrArg UInt8.toNat h
    rw [UInt8.toNat_and,UInt8.toNat_add] at hnat
    change (top.toNat+128)%256 &&& 127 = 0 at hnat
    rw [hand] at hnat
    omega

open CScriptNum

theorem isMinimal_getvch (n) : isMinimal (getvch n) := by
  cases hlast : (natBytes n.natAbs n.natAbs).getLast? with
  | none =>
    have hget : getvch n = [] := by simp [getvch,hlast]
    rw [hget]
    rfl
  | some top =>
    have hne := getLast?_natBytes le_rfl hlast
    have hlen : 0 < (natBytes n.natAbs n.natAbs).length := by
      rw [length_pos_iff]
      intro hnil
      simp [hnil] at hlast
    by_cases hsign : 0x80 ≤ top
    · have hget : getvch n = natBytes n.natAbs n.natAbs++[if n < 0 then 0x80 else 0] := by
        simp [getvch,hlast,hsign]
      have hand := (and_sign_ne_zero top).mpr hsign
      rw [hget,isMinimal,getLast?_concat]
      rw [dropLast_concat,hlast,Option.getD_some,length_append,length_singleton]
      simp [hand,hlen]
    · have hseven : top &&& 0x7f ≠ 0 ∧ (top+0x80) &&& 0x7f ≠ 0 := magnitude_ne_zero hne hsign
      by_cases hneg : n < 0
      · have hget : getvch n = (natBytes n.natAbs n.natAbs).dropLast++[top+0x80] := by
          simp [getvch,hlast,hsign,hneg]
        rw [hget,isMinimal,getLast?_concat]
        simp [hseven.2]
      · have hget : getvch n = natBytes n.natAbs n.natAbs := by simp [getvch,hlast,hsign,hneg]
        rw [hget,isMinimal,hlast]
        simp [hseven.1]

end Script

open Script

/-- A script of at most 4 GiB is read back as the operations that were appended, a number as
the opcode for it or as its shortest push; and searching for a push takes out exactly the
items that are this push, and counts them as long as the counter can. -/
theorem script_read_of_build (items : List Item) (hlen : (build items).length ≤ 2^32) :
    getOps (build items).length (build items) = some (items.map Item.op) ∧
      (∀ n, ¬ (n = -1 ∨ 1 ≤ n ∧ n ≤ 16) →
        CBigNum.setvch (numberOp n).2 = n ∧ CScriptNum.isMinimal (numberOp n).2 = true) ∧
      ∀ v, (items.filter fun item => item.bytes = pushVector v).length < 2^31 →
        (findAndDelete (pushVector v) (build items)).1.toInt =
            (items.filter fun item => item.bytes = pushVector v).length ∧
          (findAndDelete (pushVector v) (build items)).2 =
            build (items.filter fun item => item.bytes ≠ pushVector v) := by
  refine ⟨getOps_build hlen le_rfl,fun n hn => ?_,fun v hcount => ?_⟩
  · rw [numberOp,if_neg (by simpa using hn)]
    exact ⟨setvch_getvch n,isMinimal_getvch n⟩
  · have hne : pushVector v ≠ [] := length_pos_iff.mp (length_pushVector_pos v)
    rw [findAndDelete,if_neg hne,deleteFound_build v hlen le_rfl]
    exact ⟨Int32.toInt_ofNat_of_lt hcount,rfl⟩

namespace Sample

/-- A number, a push of the same byte, a longer push that contains both, and an opcode. -/
def pushes : List Item :=
  [.int64 17,.vector [17],.vector [1,17,0xac],.int64 (-1),.opcode 0xac (by decide)]

end Sample

open Sample

theorem script_read_of_build_pushes : (build pushes).length ≤ 2^32 ∧
      getOps (build pushes).length (build pushes) =
        some [(1,[17]),(1,[17]),(3,[1,17,0xac]),(0x4f,[]),(0xac,[])] ∧
      findAndDelete (pushVector [17]) (build pushes) = (2,build (pushes.drop 2)) := by
  have hlen : (build pushes).length ≤ 2^32 := by decide +kernel
  obtain ⟨hread,-,hdelete⟩ := script_read_of_build pushes hlen
  obtain ⟨hfound,hleft⟩ := hdelete [17] (by decide +kernel)
  refine ⟨hlen,hread.trans (by decide +kernel),Prod.ext ?_ (hleft.trans (by decide +kernel))⟩
  exact Int32.toInt_inj.mp (hfound.trans (by decide +kernel))

/-- The length of a vector of 4 GiB is written as zero. -/
theorem vector_of_4GiB : ∃ b : List UInt8, b.length = 2^32 ∧
    getOps (build [.vector b]).length (build [.vector b]) ≠ some ([Item.vector b].map Item.op) := by
  have hexists : ∀ n : ℕ, ∃ b : List UInt8, b.length = n := fun n => ⟨List.replicate n 0,length_replicate⟩
  obtain ⟨b,hlen⟩ := hexists (2^32)
  refine ⟨b,hlen,?_⟩
  have hheader : pushHeader (2^32) = [0x4e,0,0,0,0] := by decide
  have hbuild : build [.vector b] = 0x4e::([0,0,0,0]++b) := by
    rw [build_cons,Item.bytes,pushVector,hlen,hheader,build_eq,flatMap_nil,append_nil]
    rfl
  have hread : getOp (0x4e::([0,0,0,0]++b)) = ⟨true,0x4e,[],b⟩ := by
    rw [getOp]
    simp only [show (0x4e : UInt8).toNat ≤ OP_PUSHDATA4 by decide,if_true,
      show pushWidth (0x4e : UInt8).toNat =
        4 by decide,show ¬ (0x4e : UInt8).toNat < OP_PUSHDATA1 by decide,if_false]
    have htake : List.take 4 ([0,0,0,0]++b) = [0,0,0,0] := rfl
    have hdrop : List.drop 4 ([0,0,0,0]++b) = b := rfl
    have hzero : leValue [0,0,0,0] = 0 := by decide
    rw [htake,hdrop,hzero,if_neg (Nat.not_lt_zero _)]
    rfl
  intro heq
  rw [hbuild,length_cons,getOps] at heq
  · simp only [hread,if_true] at heq
    obtain ⟨ops,-,hops⟩ := Option.map_eq_some_iff.mp heq
    have hdata : (0x4e,([] : List UInt8)) = (pushMark b.length,b) := (List.cons.inj hops).1
    have hnil := congrArg List.length (Prod.mk.inj hdata).2
    rw [hlen] at hnil
    simp at hnil
  · simp

end DarkSilk
