import ResourceManager.Object
import ResourceManager.GoInt
import ResourceManager.Store
import ResourceManager.Prog
import ResourceManager.Backoff
import ResourceManager.TryUpdate
import ResourceManager.Clients
import ResourceManager.Linearizable
import ResourceManager.Finalizer
import ResourceManager.ConcurrentFinalizers
import ResourceManager.CreateOrUpdate
import ResourceManager.Versions
import ResourceManager.CreateOrUpdateClients
import ResourceManager.Helpers
