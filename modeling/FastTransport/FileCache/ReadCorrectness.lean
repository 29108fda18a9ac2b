import FastTransport.FileCache.DiskInvariant
import FastTransport.FileCache.Attended

/-! Every reply to a read of a file carries the bytes that were asked for, whatever the order of reads,
prefetches, arrivals, evictions, disk jobs and wakeups. -/

namespace FastTransport.FileCache

open FileSystem Lib.Bytes Lib.Runs

theorem reply_eq_wanted {files : ℕ → RemoteFile} {inode : ℕ} {as : List Action} {s : Client}
    (h : Path Client.step (fun s a => ReadsIn {inode} a ∧ Serves True files s a) (Client.create files) as s)
    {r : Reply} (hr : r ∈ s.replies) {bytes : Option (List UInt8)} (hb : r.result = .data bytes) :
    bytes = some (wanted files r.request) :=
  (clientInv_of_path (Set.injOn_singleton _ _) h).disk.replies trivial r hr bytes hb

theorem reply_eq_wanted_tail :
    ∃ s, run Client.step (Client.create fun _ => sampleFile)
        [.read sampleRead, .cacheTree 0 false [], .sendRequest, .answer 0 0 [([7, 8, 9], [])], .receive 0,
          .cacheTree 0 false [], .cacheTree 0 false []] = some s ∧
      ∃ bytes, (⟨sampleRead, .data bytes⟩ : Reply) ∈ s.replies ∧ bytes = some [8, 9] := by
  have hp : ∃ s, run Client.step (Client.create fun _ => sampleFile)
      [.read sampleRead, .cacheTree 0 false [], .sendRequest, .answer 0 0 [([7, 8, 9], [])], .receive 0,
        .cacheTree 0 false [], .cacheTree 0 false []] = some s ∧
      (∃ bytes, (⟨sampleRead, .data bytes⟩ : Reply) ∈ s.replies) ∧
      Path Client.step (fun s a => ReadsIn {8} a ∧ Serves True (fun _ => sampleFile) s a)
        (Client.create fun _ => sampleFile)
        [.read sampleRead, .cacheTree 0 false [], .sendRequest, .answer 0 0 [([7, 8, 9], [])], .receive 0,
          .cacheTree 0 false [], .cacheTree 0 false []] s := by
    refine ⟨_, rfl, ⟨_, List.mem_singleton.mpr rfl⟩, ?_⟩
    refine .cons ⟨rfl, fun _ => by decide⟩ rfl (.cons ⟨trivial, trivial⟩ rfl (.cons ⟨trivial, trivial⟩ rfl
      (.cons ⟨trivial, fun _ r hr => ?_⟩ rfl (.cons ⟨trivial, trivial⟩ rfl (.cons ⟨trivial, trivial⟩ rfl
        (.cons ⟨trivial, trivial⟩ rfl (.nil _)))))))
    cases hr
    exact ⟨[], ⟨0, [7, 8, 9], []⟩, rfl, fun p hp => absurd hp List.not_mem_nil, by decide, by decide, rfl⟩
  obtain ⟨s, hrun, ⟨bytes, hm⟩, hp⟩ := hp
  exact ⟨s, hrun, bytes, hm, reply_eq_wanted hp hm rfl⟩

end FastTransport.FileCache
