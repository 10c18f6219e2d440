import Mathlib.Tactic.NormNum
import Omnibus.Audiobooks.Boxes

/-!
# Walking the boxes of a region

`list_child_boxes` beside `find_child_box`: what either walk gives of any bytes, and of a region
that is written as boxes one after another.
-/

namespace Omnibus.Audiobooks

section Walk

/-- The loop of `list_child_boxes`. -/
def listBoxesFrom (data : Bytes) (stop pos : Nat) : List (Bytes × BoxInfo) :=
  match _header : readBoxHeader data pos stop with
  | none => []
  | some (boxType, info, boxSize) =>
      (boxType, info) ::
        match _advanced : advance pos boxSize with
        | none => []
        | some next => listBoxesFrom data stop next
termination_by stop - pos
decreasing_by
  have inside := read_box_header_inside _header
  have after := advance_after _advanced
  omega

def listChildBoxes (data : Bytes) (parent : BoxInfo) : List (Bytes × BoxInfo) :=
  match checkedAdd parent.dataOffset parent.dataSize with
  | none => []
  | some stop => listBoxesFrom data stop parent.dataOffset

/-- A listed box and where its header starts. -/
structure Span where
  start : Nat
  boxType : Bytes
  info : BoxInfo
  deriving DecidableEq, Repr

def Span.stop (span : Span) : Nat := span.info.dataOffset + span.info.dataSize

/-- The header lies at the start, the payload after it, and both end within `stop`. -/
structure Span.Inside (data : Bytes) (stop : Nat) (span : Span) : Prop where
  boxType : span.boxType = (data.drop (span.start + 4)).take 4
  header : span.info.dataOffset = span.start + 8 ∨ span.info.dataOffset = span.start + 16
  within : span.stop ≤ stop

theorem checked_add_of_lt {left right : Nat} (fits : left + right < 2 ^ 64) :
    checkedAdd left right = some (left + right) := if_pos fits

theorem read_exact_eq {data bytes : Bytes} {pos count : Nat}
    (read : readExact data pos count = some bytes) : bytes = (data.drop pos).take count := by
  unfold readExact at read
  split at read
  · rename_i isZero
    rw [isZero, List.take_zero]
    exact (Option.some.inj read).symm
  · split at read
    · exact (Option.some.inj read).symm
    · cases read

/-- The checks a header ends with: the size covers the header and stays within `stop`. -/
theorem read_box_checks {header boxType : Bytes} {pos stop dataOffset size boxSize : Nat}
    {info : BoxInfo} (checked : (do
      guard (dataOffset - pos ≤ size)
      guard ((← checkedAdd pos size) ≤ stop)
      pure (header.drop 4, (⟨dataOffset, size - (dataOffset - pos)⟩ : BoxInfo), size)) =
        some (boxType, info, boxSize)) :
    boxType = header.drop 4 ∧ info = ⟨dataOffset, boxSize - (dataOffset - pos)⟩ ∧
      dataOffset - pos ≤ boxSize ∧ pos + boxSize ≤ stop := by
  obtain ⟨_, covers, checked⟩ := Option.bind_eq_some_iff.mp checked
  obtain ⟨after, sum, checked⟩ := Option.bind_eq_some_iff.mp checked
  obtain ⟨_, within, checked⟩ := Option.bind_eq_some_iff.mp checked
  have covered := guard_eq_some covers
  have inside := guard_eq_some within
  rw [checked_add_eq_some sum] at inside
  have result := Option.some.inj checked
  simp only [Prod.mk.injEq] at result
  obtain ⟨rfl, rfl, rfl⟩ := result
  exact ⟨rfl, rfl, covered, inside⟩

/-- A header that is read is that of a box within the region, and names its whole size. -/
theorem read_box_header_spec {data : Bytes} {pos stop boxSize : Nat} {boxType : Bytes}
    {info : BoxInfo} (header : readBoxHeader data pos stop = some (boxType, info, boxSize)) :
    Span.Inside data stop ⟨pos, boxType, info⟩ ∧
      info.dataOffset + info.dataSize = pos + boxSize ∧ 8 ≤ boxSize := by
  unfold readBoxHeader at header
  obtain ⟨_, _, header⟩ := Option.bind_eq_some_iff.mp header
  obtain ⟨_, _, header⟩ := Option.bind_eq_some_iff.mp header
  obtain ⟨bytes, read, header⟩ := Option.bind_eq_some_iff.mp header
  have checked : ∃ offset, (offset = pos + 8 ∨ offset = pos + 16) ∧ boxType = bytes.drop 4 ∧
      info = ⟨offset, boxSize - (offset - pos)⟩ ∧ offset - pos ≤ boxSize ∧ pos + boxSize ≤ stop := by
    simp only at header
    split at header
    · obtain ⟨ext, _, header⟩ := Option.bind_eq_some_iff.mp header
      obtain ⟨start, sum, header⟩ := Option.bind_eq_some_iff.mp header
      exact ⟨start, .inr (checked_add_eq_some sum), read_box_checks header⟩
    · split at header
      · obtain ⟨_, _, header⟩ := Option.bind_eq_some_iff.mp header
        obtain ⟨start, sum, header⟩ := Option.bind_eq_some_iff.mp header
        exact ⟨start, .inl (checked_add_eq_some sum), read_box_checks header⟩
      · obtain ⟨start, sum, header⟩ := Option.bind_eq_some_iff.mp header
        exact ⟨start, .inl (checked_add_eq_some sum), read_box_checks header⟩
  obtain ⟨offset, payload, rfl, rfl, covers, within⟩ := checked
  refine ⟨⟨?_, payload, ?_⟩, ?_, ?_⟩
  · rw [read_exact_eq read, List.drop_take, List.drop_drop]
  · simp only [Span.stop]
    omega
  · dsimp only
    omega
  · omega

theorem advance_of_header {data : Bytes} {pos stop boxSize : Nat} {boxType : Bytes}
    {info : BoxInfo} (header : readBoxHeader data pos stop = some (boxType, info, boxSize))
    (addressed : stop < 2 ^ 64) :
    advance pos boxSize = some (info.dataOffset + info.dataSize) := by
  obtain ⟨inside, whole, least⟩ := read_box_header_spec header
  have within := inside.within
  simp only [Span.stop] at within
  unfold advance
  rw [checked_add_of_lt (by omega), whole]
  exact Option.filter_some_pos (by simp; omega)

theorem list_boxes_nil {data : Bytes} {stop pos : Nat} (none' : readBoxHeader data pos stop = none) :
    listBoxesFrom data stop pos = [] := by
  rw [listBoxesFrom]
  split
  · rfl
  · rename_i header
    rw [none'] at header
    cases header

theorem list_boxes_cons {data : Bytes} {stop pos boxSize : Nat} {boxType : Bytes} {info : BoxInfo}
    (addressed : stop < 2 ^ 64)
    (header : readBoxHeader data pos stop = some (boxType, info, boxSize)) :
    listBoxesFrom data stop pos =
      (boxType, info) :: listBoxesFrom data stop (info.dataOffset + info.dataSize) := by
  have advanced := advance_of_header header addressed
  rw [listBoxesFrom]
  split
  · rename_i none'
    rw [header] at none'
    cases none'
  · rename_i own
    rw [header] at own
    simp only [Option.some.injEq, Prod.mk.injEq] at own
    obtain ⟨rfl, rfl, rfl⟩ := own
    split
    · rename_i none'
      rw [advanced] at none'
      cases none'
    · rename_i next
      rw [advanced] at next
      rw [Option.some.inj next]

theorem find_box_nil {data target : Bytes} {stop pos : Nat}
    (none' : readBoxHeader data pos stop = none) : findBoxFrom data stop target pos = none := by
  rw [findBoxFrom]
  split
  · rfl
  · rename_i header
    rw [none'] at header
    cases header

theorem find_box_cons {data target : Bytes} {stop pos boxSize : Nat} {boxType : Bytes}
    {info : BoxInfo} (addressed : stop < 2 ^ 64)
    (header : readBoxHeader data pos stop = some (boxType, info, boxSize)) :
    findBoxFrom data stop target pos =
      if boxType = target then some info
      else findBoxFrom data stop target (info.dataOffset + info.dataSize) := by
  have advanced := advance_of_header header addressed
  rw [findBoxFrom]
  split
  · rename_i none'
    rw [header] at none'
    cases none'
  · rename_i own
    rw [header] at own
    simp only [Option.some.injEq, Prod.mk.injEq] at own
    obtain ⟨rfl, rfl, rfl⟩ := own
    split
    · rfl
    · split
      · rename_i none'
        rw [advanced] at none'
        cases none'
      · rename_i next
        rw [advanced] at next
        rw [Option.some.inj next]

/-- The two walks agree: a box is found when it is the first listed one of its type. -/
theorem find_box_listed (data target : Bytes) {stop : Nat} (addressed : stop < 2 ^ 64) (pos : Nat) :
    findBoxFrom data stop target pos =
      ((listBoxesFrom data stop pos).find? (·.1 = target)).map (·.2) := by
  induction room : stop - pos using Nat.strong_induction_on generalizing pos with
  | _ room' induction =>
      cases header : readBoxHeader data pos stop with
      | none =>
          rw [find_box_nil header, list_boxes_nil header]
          rfl
      | some found =>
          obtain ⟨boxType, info, boxSize⟩ := found
          obtain ⟨-, whole, least⟩ := read_box_header_spec header
          have inside := read_box_header_inside header
          rw [find_box_cons addressed header, list_boxes_cons addressed header]
          by_cases same : boxType = target
          · rw [if_pos same, List.find?_cons_of_pos (by simpa using same)]
            rfl
          · rw [if_neg same, List.find?_cons_of_neg (by simpa using same)]
            exact induction _ (by omega) _ rfl

theorem list_boxes_spans (data : Bytes) {stop : Nat} (addressed : stop < 2 ^ 64) (pos : Nat) :
    ∃ spans : List Span,
      listBoxesFrom data stop pos = spans.map (fun span => (span.boxType, span.info)) ∧
        (∀ span ∈ spans, span.Inside data stop ∧ pos ≤ span.start) ∧
        spans.Pairwise fun left right => left.stop ≤ right.start := by
  induction room : stop - pos using Nat.strong_induction_on generalizing pos with
  | _ room' induction =>
      cases header : readBoxHeader data pos stop with
      | none => exact ⟨[], list_boxes_nil header, nofun, List.Pairwise.nil⟩
      | some found =>
          obtain ⟨boxType, info, boxSize⟩ := found
          obtain ⟨own, whole, least⟩ := read_box_header_spec header
          have inside := read_box_header_inside header
          obtain ⟨spans, listed, each, ordered⟩ :=
            induction _ (by omega) (info.dataOffset + info.dataSize) rfl
          refine ⟨⟨pos, boxType, info⟩ :: spans, ?_, ?_, ?_⟩
          · rw [list_boxes_cons addressed header, listed]
            rfl
          · intro span member
            rcases List.mem_cons.mp member with isFirst | isLater
            · rw [isFirst]
              exact ⟨own, le_rfl⟩
            · have later := each span isLater
              exact ⟨later.1, by omega⟩
          · apply List.Pairwise.cons _ ordered
            intro span isLater
            exact (each span isLater).2

end Walk

section Written

/-- `to_be_bytes`, of the lowest `width` bytes. -/
def beBytes : Nat → Nat → Bytes
  | 0, _ => []
  | width + 1, number => beBytes width (number / 256) ++ [UInt8.ofNat number]

@[simp] theorem be_bytes_length (width number : Nat) : (beBytes width number).length = width := by
  induction width generalizing number with
  | zero => rfl
  | succ width induction => simp [beBytes, induction]

theorem be_nat_append (bytes : Bytes) (byte : UInt8) :
    beNat (bytes ++ [byte]) = beNat bytes * 256 + byte.toNat := by
  simp [beNat]

theorem be_nat_bytes {width number : Nat} (fits : number < 256 ^ width) :
    beNat (beBytes width number) = number := by
  induction width generalizing number with
  | zero =>
      rw [pow_zero] at fits
      have isZero : number = 0 := by omega
      rw [isZero]
      rfl
  | succ width induction =>
      have higher : number / 256 < 256 ^ width := by
        apply Nat.div_lt_of_lt_mul
        rw [mul_comm, ← pow_succ]
        exact fits
      rw [beBytes, be_nat_append, induction higher, UInt8.toNat_ofNat']
      omega

theorem chunks_of_cons {size : Nat} (some' : 0 < size) {chunk : Bytes}
    (sized : chunk.length = size) (rest : Bytes) :
    chunksOf size (chunk ++ rest) = chunk :: chunksOf size rest := by
  have count : (chunk ++ rest).length / size = rest.length / size + 1 := by
    rw [List.length_append, sized, Nat.add_div_left _ some']
  unfold chunksOf
  rw [count, List.range_succ_eq_map, List.map_cons, List.map_map]
  congr 1
  · rw [Nat.zero_mul, List.drop_zero, List.take_left' sized]
  · apply List.map_congr_left
    intro index _
    simp only [Function.comp]
    rw [Nat.succ_mul, Nat.add_comm, ← List.drop_drop, List.drop_left' sized]

/-- Records of one size, written one after another, are the chunks of what is written. -/
theorem chunks_of_flatten {size : Nat} (some' : 0 < size) {chunks : List Bytes}
    (sized : ∀ chunk ∈ chunks, chunk.length = size) : chunksOf size chunks.flatten = chunks := by
  induction chunks with
  | nil => simp [chunksOf]
  | cons chunk rest induction =>
      rw [List.flatten_cons, chunks_of_cons some' (sized chunk (by simp)),
        induction fun other member => sized other (List.mem_cons_of_mem _ member)]

/-- How a box states its size: in 32 bits, in 64 bits, or by ending where its parent does. -/
inductive SizeForm where
  | short
  | long
  | toEnd
  deriving DecidableEq, Repr

structure Box where
  boxType : Bytes
  payload : Bytes
  form : SizeForm
  deriving DecidableEq, Repr

def Box.header (box : Box) : Bytes :=
  match box.form with
  | .short => beBytes 4 (8 + box.payload.length) ++ box.boxType
  | .long => beBytes 4 1 ++ box.boxType ++ beBytes 8 (16 + box.payload.length)
  | .toEnd => beBytes 4 0 ++ box.boxType

def Box.encode (box : Box) : Bytes := box.header ++ box.payload

structure Box.Fits (box : Box) : Prop where
  boxType : box.boxType.length = 4
  short : box.form = .short → 8 + box.payload.length < 2 ^ 32
  long : box.form = .long → 16 + box.payload.length < 2 ^ 64

def encodeBoxes (boxes : List Box) : Bytes := (boxes.map Box.encode).flatten

/-- Boxes that fit, of which at most the last ends with the region. -/
def WellFormed (boxes : List Box) : Prop :=
  (∀ box ∈ boxes, box.Fits) ∧ ∀ box ∈ boxes.dropLast, box.form ≠ .toEnd

/-- The boxes written from `pos` on, as a walk lists them. -/
def laidOut (pos : Nat) : List Box → List (Bytes × BoxInfo)
  | [] => []
  | box :: rest =>
      (box.boxType, ⟨pos + box.header.length, box.payload.length⟩) ::
        laidOut (pos + box.encode.length) rest

theorem read_exact_at {data bytes : Bytes} (before after : Bytes) {pos count : Nat}
    (split : data = before ++ (bytes ++ after)) (isPos : pos = before.length)
    (isCount : count = bytes.length) : readExact data pos count = some bytes := by
  unfold readExact
  split_ifs with isZero within
  · rw [isCount] at isZero
    rw [List.eq_nil_of_length_eq_zero isZero]
  · rw [split, isPos, isCount, List.drop_left, List.take_left]
  · exfalso
    apply within
    rw [split, isPos, isCount, List.length_append, List.length_append]
    omega

theorem header_length {box : Box} (fits : box.Fits) :
    box.header.length = 8 ∨ box.header.length = 16 ∧ box.form = .long := by
  unfold Box.header
  cases form : box.form <;> simp [fits.boxType]

theorem guard_of {condition : Prop} [Decidable condition] (holds : condition) :
    (guard condition : Option Unit) = some () := by
  simp [guard, holds]

theorem checks_pass {header boxType : Bytes} {pos stop headerLen payload : Nat}
    (typed : header.drop 4 = boxType) (within : pos + (headerLen + payload) ≤ stop)
    (addressed : stop < 2 ^ 64) :
    (do
      guard (pos + headerLen - pos ≤ headerLen + payload)
      guard ((← checkedAdd pos (headerLen + payload)) ≤ stop)
      pure (header.drop 4, (⟨pos + headerLen, headerLen + payload - (pos + headerLen - pos)⟩ : BoxInfo),
        headerLen + payload)) =
        some (boxType, ⟨pos + headerLen, payload⟩, headerLen + payload) := by
  rw [guard_of (by omega), checked_add_of_lt (by omega)]
  simp only [Option.bind_eq_bind, Option.bind_some, guard_of within, typed,
    Nat.add_sub_cancel_left]
  rfl

theorem read_first_eight {data before after : Bytes} {box : Box} (declared : Nat) (more : Bytes)
    (typed : box.boxType.length = 4)
    (isHeader : box.header = beBytes 4 declared ++ box.boxType ++ more)
    (split : data = before ++ (box.encode ++ after)) :
    readExact data before.length 8 = some (beBytes 4 declared ++ box.boxType) := by
  apply read_exact_at before (more ++ (box.payload ++ after)) _ rfl (by simp [typed])
  rw [split, Box.encode, isHeader]
  simp only [List.append_assoc]

theorem declared_size {declared : Nat} (small : declared < 256 ^ 4) (boxType : Bytes) :
    beNat ((beBytes 4 declared ++ boxType).take 4) = declared := by
  rw [List.take_left' (by simp), be_nat_bytes small]

theorem declared_type (declared : Nat) (boxType : Bytes) :
    (beBytes 4 declared ++ boxType).drop 4 = boxType := List.drop_left' (by simp)

theorem read_written_header {data before after : Bytes} {box : Box} {stop : Nat} (fits : box.Fits)
    (split : data = before ++ (box.encode ++ after))
    (within : before.length + box.encode.length ≤ stop) (addressed : stop < 2 ^ 64)
    (ends : box.form = .toEnd → before.length + box.encode.length = stop) :
    readBoxHeader data before.length stop = some (box.boxType,
      ⟨before.length + box.header.length, box.payload.length⟩, box.encode.length) := by
  have fourBytes := fits.boxType
  have size : box.encode.length = box.header.length + box.payload.length := by
    rw [Box.encode, List.length_append]
  rw [size] at within ends ⊢
  have room : before.length + 8 ≤ stop := by
    rcases header_length fits with eight | sixteen <;> omega
  unfold readBoxHeader
  rw [checked_add_of_lt (by omega)]
  cases form : box.form with
  | short =>
      have isHeader : box.header = beBytes 4 (8 + box.payload.length) ++ box.boxType ++ [] := by
        rw [Box.header, form, List.append_nil]
      have eight : box.header.length = 8 := by
        simp [isHeader, fourBytes]
      rw [eight] at within ⊢
      rw [read_first_eight _ _ fourBytes isHeader split]
      simp only [Option.bind_eq_bind, Option.bind_some, guard_of room,
        declared_size (fits.short form)]
      rw [if_neg (by omega), if_neg (by omega)]
      exact checks_pass (declared_type _ _) within addressed
  | long =>
      have isHeader : box.header =
          beBytes 4 1 ++ box.boxType ++ beBytes 8 (16 + box.payload.length) := by
        rw [Box.header, form]
      have sixteen : box.header.length = 16 := by
        simp [isHeader, fourBytes]
      have extended : readExact data (before.length + 8) 8 =
          some (beBytes 8 (16 + box.payload.length)) := by
        apply read_exact_at (before ++ (beBytes 4 1 ++ box.boxType)) (box.payload ++ after) _
          (by simp [fourBytes]) (by simp)
        rw [split, Box.encode, isHeader]
        simp only [List.append_assoc]
      have declaredLong : beNat (beBytes 8 (16 + box.payload.length)) = 16 + box.payload.length :=
        be_nat_bytes (fits.long form)
      rw [sixteen] at within ⊢
      rw [read_first_eight _ _ fourBytes isHeader split]
      simp only [Option.bind_eq_bind, Option.bind_some, guard_of room,
        declared_size (by norm_num : 1 < 256 ^ 4), extended, declaredLong]
      rw [if_pos trivial, checked_add_of_lt (by omega), Option.bind_some]
      exact checks_pass (declared_type _ _) within addressed
  | toEnd =>
      have isHeader : box.header = beBytes 4 0 ++ box.boxType ++ [] := by
        rw [Box.header, form, List.append_nil]
      have eight : box.header.length = 8 := by
        simp [isHeader, fourBytes]
      have final := ends form
      rw [eight] at within final ⊢
      rw [read_first_eight _ _ fourBytes isHeader split]
      simp only [Option.bind_eq_bind, Option.bind_some, guard_of room,
        declared_size (by norm_num : 0 < 256 ^ 4)]
      rw [if_neg (by omega), if_pos trivial, guard_of (by omega), Option.bind_some,
        ← final, Nat.add_sub_cancel_left]
      exact checks_pass (declared_type _ _) le_rfl (by omega)

theorem read_no_header (data : Bytes) (stop : Nat) : readBoxHeader data stop stop = none := by
  cases header : readBoxHeader data stop stop with
  | none => rfl
  | some found => exact absurd (read_box_header_inside header) (lt_irrefl stop)

theorem list_written_boxes (data before after : Bytes) (boxes : List Box)
    (wellFormed : WellFormed boxes) (split : data = before ++ (encodeBoxes boxes ++ after))
    (addressed : before.length + (encodeBoxes boxes).length < 2 ^ 64) :
    listBoxesFrom data (before.length + (encodeBoxes boxes).length) before.length =
      laidOut before.length boxes := by
  induction boxes generalizing before with
  | nil =>
      rw [encodeBoxes, List.map_nil, List.flatten_nil, List.length_nil, Nat.add_zero]
      exact list_boxes_nil (read_no_header data before.length)
  | cons box rest induction =>
      have whole : encodeBoxes (box :: rest) = box.encode ++ encodeBoxes rest := by
        simp [encodeBoxes]
      have fits := wellFormed.1 box (by simp)
      have size : box.encode.length = box.header.length + box.payload.length := by
        rw [Box.encode, List.length_append]
      have laterFormed : WellFormed rest := by
        constructor
        · exact fun other member => wellFormed.1 other (List.mem_cons_of_mem _ member)
        · intro other member
          apply wellFormed.2 other
          cases rest with
          | nil => cases member
          | cons next rest =>
              rw [List.dropLast_cons_cons]
              exact List.mem_cons_of_mem _ member
      have ends : box.form = .toEnd →
          before.length + box.encode.length = before.length + (encodeBoxes (box :: rest)).length := by
        intro toEnd
        cases rest with
        | nil => simp [encodeBoxes]
        | cons next rest => exact absurd toEnd (wellFormed.2 box (by simp))
      rw [whole, List.length_append] at addressed ends ⊢
      rw [whole, List.append_assoc] at split
      have header := read_written_header fits split (by omega) addressed ends
      rw [list_boxes_cons addressed header, laidOut]
      have later := induction (before ++ box.encode) laterFormed
        (by rw [split, List.append_assoc]) (by rw [List.length_append]; omega)
      rw [List.length_append] at later
      rw [Nat.add_assoc before.length, ← size, ← later]
      congr 2
      omega

end Written

/-- The walks over a region of a file: the listed boxes lie one after another within it, the first
of a type is the one found, and of a region written as boxes just these are listed. -/
theorem box_walks (data : Bytes) (offset size : Nat) (addressed : data.length < 2 ^ 64)
    (inFile : offset + size ≤ data.length) :
    (∃ spans : List Span,
      listChildBoxes data ⟨offset, size⟩ = spans.map (fun span => (span.boxType, span.info)) ∧
        (∀ span ∈ spans, span.Inside data (offset + size) ∧ offset ≤ span.start) ∧
        spans.Pairwise fun left right => left.stop ≤ right.start) ∧
      (∀ target, findChildBox data ⟨offset, size⟩ target =
        ((listChildBoxes data ⟨offset, size⟩).find? (·.1 = target)).map (·.2)) ∧
      ∀ boxes, WellFormed boxes → (data.drop offset).take size = encodeBoxes boxes →
        listChildBoxes data ⟨offset, size⟩ = laidOut offset boxes := by
  have stop : checkedAdd offset size = some (offset + size) := checked_add_of_lt (by omega)
  have listed : listChildBoxes data ⟨offset, size⟩ = listBoxesFrom data (offset + size) offset := by
    unfold listChildBoxes
    simp only [stop]
  rw [listed]
  refine ⟨list_boxes_spans data (by omega) offset, ?_, ?_⟩
  · intro target
    unfold findChildBox
    simp only [stop, Option.bind_eq_bind, Option.bind_some]
    exact find_box_listed data target (by omega) offset
  · intro boxes wellFormed region
    have isSize : (encodeBoxes boxes).length = size := by
      rw [← region, List.length_take, List.length_drop]
      omega
    have isOffset : (data.take offset).length = offset := by
      rw [List.length_take]
      omega
    have split : data = data.take offset ++ (encodeBoxes boxes ++ data.drop (offset + size)) := by
      rw [← region, ← List.drop_drop, List.take_append_drop, List.take_append_drop]
    have written := list_written_boxes data (data.take offset) _ boxes wellFormed split
      (by rw [isOffset, isSize]; omega)
    rw [isOffset, isSize] at written
    exact written

/-- Two boxes, the second to the end of the file. -/
theorem box_walks_to_end :
    listChildBoxes (encodeBoxes [⟨tag "free", [1, 2], .short⟩, ⟨tag "mdat", [3], .toEnd⟩])
        ⟨0, 19⟩ =
      [(tag "free", ⟨8, 2⟩), (tag "mdat", ⟨18, 1⟩)] :=
  (box_walks _ 0 19 (by decide) (by decide)).2.2
    [⟨tag "free", [1, 2], .short⟩, ⟨tag "mdat", [3], .toEnd⟩]
    ⟨by
      intro box member
      simp only [List.mem_cons, List.not_mem_nil, or_false] at member
      rcases member with isFree | isData
      · rw [isFree]
        exact ⟨rfl, fun _ => by decide, nofun⟩
      · rw [isData]
        exact ⟨rfl, nofun, nofun⟩,
      by decide⟩ rfl

end Omnibus.Audiobooks
