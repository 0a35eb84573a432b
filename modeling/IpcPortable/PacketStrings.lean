import IpcPortable.Replies

/-!
The strings that `DeserializeNameSignature` finds in the body of a call packet,
whatever the body is. They lie inside the packet, and the dispatch reads only
bytes that exist, exactly when no length field that is there declares more
bytes than follow it (`strings_inside_iff`): a read that fails answers no
pointer but keeps the length.
-/
namespace IpcPortable.PacketStrings
open IpcPortable.LittleEndian IpcPortable.DataStream IpcPortable.Values IpcPortable.Packets IpcPortable.RawStrings
open IpcPortable.Calls IpcPortable.Signatures IpcPortable.ProcMaps IpcPortable.Dispatch IpcPortable.Replies

/-- The string is empty, or it is a range of the packet. -/
def Inside (packet : Data) (str : RawString) : Prop :=
  str.m_len = 0 ∨ ∃ behind, str.m_str = some behind ∧ behind <:+ packet.bytes ∧ str.m_len ≤ behind.length

/-- The length field at the start of the bytes. -/
def declared (bs : List Byte) : Nat := (ofBytes (8*4) (bs.take 4)).toNat
/-- The length field is cut off, or the string it declares is there. -/
def StringFits (bs : List Byte) : Prop := bs.length < 4 ∨ declared bs ≤ bs.length - 4
instance (bs : List Byte) : Decidable (StringFits bs) := inferInstanceAs (Decidable (_ ∨ _))
/-- What follows a string that fits. -/
def afterString (bs : List Byte) : List Byte := if bs.length < 4 then bs else bs.drop (4 + declared bs)
/-- Each of the three strings of a body fits where it begins; a flag stands
    behind the first one. -/
structure SignatureFits (body : List Byte) : Prop where
  name : StringFits body
  return_type : StringFits ((afterString body).drop 1)
  params_type : StringFits (afterString ((afterString body).drop 1))

theorem takeString_fits {bs : List Byte} (fits : StringFits bs) {packet : Data} (within : bs <:+ packet.bytes) :
    Inside packet (takeString bs).1 ∧ (takeString bs).1.content.isSome ∧ (takeString bs).2 = afterString bs := by
  unfold takeString afterString
  by_cases short : bs.length < 4
  · simp [short,Inside,RawString.content]
  · have inside := fits.resolve_left short
    by_cases empty : declared bs = 0
    · have zero : (ofBytes (8*4) (bs.take 4)).toNat = 0 := empty
      simp [short,zero,empty,Inside,RawString.content]
    · have positive : (ofBytes (8*4) (bs.take 4)).toNat ≠ 0 := empty
      have there : (ofBytes (8*4) (bs.take 4)).toNat ≤ bs.length - 4 := inside
      simp only [if_neg short,if_neg positive,if_pos there]
      refine ⟨.inr ⟨_,rfl,(List.drop_suffix 4 bs).trans within,by simpa using there⟩,?_,rfl⟩
      simp [RawString.content,positive,there]

theorem takeString_missing {bs : List Byte} (cut : ¬ StringFits bs) (packet : Data) :
    ¬ Inside packet (takeString bs).1 := by
  have short : ¬ bs.length < 4 := fun short => cut (.inl short)
  have missing : ¬ (ofBytes (8*4) (bs.take 4)).toNat ≤ bs.length - 4 := fun inside => cut (.inr inside)
  have positive : (ofBytes (8*4) (bs.take 4)).toNat ≠ 0 := by omega
  unfold takeString
  simp only [if_neg short,if_neg positive,if_neg missing]
  rintro (empty | ⟨behind,pointer,_⟩)
  · exact positive empty
  · cases pointer

theorem afterString_suffix (bs : List Byte) : afterString bs <:+ bs := by
  unfold afterString
  split
  · exact List.suffix_rfl
  · exact List.drop_suffix _ _

/-- The flag moves the cursor over one byte, if there is one. -/
theorem flag_reads {s : DataStream} {bs : List Byte} (reads : Reads s bs) :
    Reads (extract .bool false s).2 (bs.drop 1) := by
  show Reads (readRawData 1 s).2 (bs.drop 1)
  rw [reads.readRawData]
  split
  · rename_i there
    exact reads.drop there
  · rename_i missing
    have none : bs = [] := List.length_eq_zero_iff.mp (by omega)
    subst none
    exact reads.raise

/-- The three strings, where the stream stands at the bytes of a body. -/
theorem deserializeNameSignature_strings {s : DataStream} {body : List Byte} (reads : Reads s body) :
    (deserializeNameSignature s).1.name = (takeString body).1 ∧
      (deserializeNameSignature s).1.return_type = (takeString ((takeString body).2.drop 1)).1 ∧
      (deserializeNameSignature s).1.params_type =
        (takeString (takeString ((takeString body).2.drop 1)).2).1 := by
  obtain ⟨name,named⟩ := read_takeString reads
  obtain ⟨return_type,returned⟩ := read_takeString (flag_reads named)
  obtain ⟨params_type,_⟩ := read_takeString returned
  exact ⟨name,return_type,params_type⟩

/-- Where the three strings exist the whole analysis reads only what exists. -/
theorem analizeNames_isSome {found : DeserializedFindCallInfo} (name : found.name.content.isSome)
    (return_type : found.return_type.content.isSome) (params_type : found.params_type.content.isSome)
    (call_infos : CallInfos) (ipc : Internals) : (analizeNames call_infos ipc found).isSome := by
  obtain ⟨proc_name,name⟩ := Option.isSome_iff_exists.mp name
  obtain ⟨return_bytes,return_type⟩ := Option.isSome_iff_exists.mp return_type
  obtain ⟨params_bytes,params_type⟩ := Option.isSome_iff_exists.mp params_type
  have names : Names found proc_name found.send_return return_bytes params_bytes := ⟨name,rfl,return_type,params_type⟩
  obtain ⟨invoke,reported,analized,_⟩ := analizeNames_cases names call_infos ipc
  rw [analized]
  rfl

/-- Whatever the body of a call packet is: the strings found in it lie inside
    the packet, and for every registry the dispatch reads only bytes that
    exist, if and only if each length field declares no more than follows it. -/
theorem strings_inside_iff (type_raw : BitVec 32) (packet : Data) (no_header_size : Nat) (id : CallId)
    (body : List Byte) (bytes : packet.bytes = encodeHeader no_header_size pt_call id ++ body) :
    (∀ found, found = (deserializeNameSignature (receiveCallDataBuffer type_raw packet).data).1 →
      Inside packet found.name ∧ Inside packet found.return_type ∧ Inside packet found.params_type ∧
        ∀ call_infos ipc, (analizeNames call_infos ipc found).isSome) ↔ SignatureFits body := by
  obtain ⟨_,_,reads⟩ := receiveCallDataBuffer_reads type_raw bytes
  obtain ⟨name,return_type,params_type⟩ := deserializeNameSignature_strings reads
  have within : body <:+ packet.bytes := bytes ▸ List.suffix_append _ _
  have behind (bs : List Byte) (suffix : bs <:+ packet.bytes) : (afterString bs).drop 1 <:+ packet.bytes :=
    (List.drop_suffix _ _).trans ((afterString_suffix bs).trans suffix)
  simp only [forall_eq,name,return_type,params_type]
  constructor
  · rintro ⟨first,second,third,_⟩
    have name_fits : StringFits body := by
      by_contra cut
      exact takeString_missing cut packet first
    rw [(takeString_fits name_fits within).2.2] at second third
    have return_fits : StringFits ((afterString body).drop 1) := by
      by_contra cut
      exact takeString_missing cut packet second
    rw [(takeString_fits return_fits (behind _ within)).2.2] at third
    refine ⟨name_fits,return_fits,?_⟩
    by_contra cut
    exact takeString_missing cut packet third
  · intro fits
    obtain ⟨first,named,next⟩ := takeString_fits fits.name within
    obtain ⟨second,returned,last⟩ := takeString_fits fits.return_type (behind _ within)
    obtain ⟨third,typed,_⟩ := takeString_fits fits.params_type ((afterString_suffix _).trans (behind _ within))
    rw [next,last]
    refine ⟨first,second,third,analizeNames_isSome ?_ ?_ ?_⟩
    · rw [name]
      exact named
    · rw [return_type,next]
      exact returned
    · rw [params_type,next,last]
      exact typed

/-- The call `n()` in a packet: its strings lie inside. -/
theorem strings_inside_callOf :
    Inside callOf (deserializeNameSignature (receiveCallDataBuffer 0 callOf).data).1.name :=
  ((strings_inside_iff 0 callOf 14 1 (encodeSignature [110] true [] [] ++ []) rfl).mpr
    ⟨by decide,by decide,by decide⟩ _ rfl).1

/-- A call whose body is the length field of a name of one byte. -/
def cutOf : Data := ⟨encodeHeader 4 pt_call 1 ++ [1,0,0,0],by decide⟩

/-- The name of that call has one byte but no address, and the search for it in
    a registry with a name of one byte reads a byte that does not exist. -/
theorem name_missing :
    ¬ Inside cutOf (deserializeNameSignature (receiveCallDataBuffer 0 cutOf).data).1.name ∧
      analizeNames (infosOf (answering [98] ⟨.bool,true⟩)) endpointOf
        (deserializeNameSignature (receiveCallDataBuffer 0 cutOf).data).1 = none := by
  have length : (deserializeNameSignature (receiveCallDataBuffer 0 cutOf).data).1.name.m_len = 1 := by decide
  have pointer : (deserializeNameSignature (receiveCallDataBuffer 0 cutOf).data).1.name.m_str = none := by decide
  constructor
  · rintro (empty | ⟨behind,points,_⟩)
    · rw [length] at empty
      cases empty
    · rw [pointer] at points
      cases points
  · generalize (deserializeNameSignature (receiveCallDataBuffer 0 cutOf).data).1 = found at length pointer ⊢
    have unread : found.name.content = none := by simp [RawString.content,length,pointer]
    simp [analizeNames,findCallInfo,ProcMaps.find,keyFind,keyLowerBound,endpointOf,ProcMap.single,Signature.key,SignatureKey.less,
      RawString.equals,RawString.ofBytes,length,unread]

end IpcPortable.PacketStrings
