import VectorChord.Index.Prefetcher
import VectorChord.Tilemaxsimd.Responses
import VectorChord.Vchordrq.Sleeping
import VectorChord.Tilemaxsimd.Content
import VectorChord.Datatype.Rabitq4
import VectorChord.Vchordg.Exhaustive
import VectorChord.Maxsim.Exact
import VectorChord.Tilemaxsimd.Choice
import VectorChord.Vchordg.Pruning
import VectorChord.Vchordg.ResultQueue
import VectorChord.Vchordrq.AppendConcurrency
import VectorChord.Index.Sampling
import VectorChord.Maxsim.Candidates
import VectorChord.Recorder.Worker
import VectorChord.Vchordg.Fitting
import VectorChord.Vchordrq.Slices
import VectorChord.Vchordrq.Structures
import VectorChord.Vchordg.Formats
import VectorChord.Vchordrq.BlockAccessor
import VectorChord.Rabitq.Planes
import VectorChord.GpuArena.Upload
import VectorChord.Tilemaxsimd.Permits
